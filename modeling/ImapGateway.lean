import ImapGateway.Store.Permanence
import ImapGateway.Store.Validity
import ImapGateway.Mailbox.Writes
import ImapGateway.Imap.Listings
import ImapGateway.Imap.Snapshots
import ImapGateway.Imap.Contents
import ImapGateway.Imap.Predictions
import ImapGateway.Imap.Answers
import ImapGateway.Parser.Chunks
import ImapGateway.Parser.Inverse
import ImapGateway.Imap.Marks
import ImapGateway.Imap.Attribution
import ImapGateway.Imap.Prefixes
import ImapGateway.Imap.Deadline
import ImapGateway.Mailbox.Rendering
import ImapGateway.Parser.Bounds
import ImapGateway.Imap.Labels
import ImapGateway.Imap.Sequences
import ImapGateway.Stream.Cuts
import ImapGateway.Client.Pagination
import ImapGateway.Drafts.HtmlToText
import ImapGateway.Drafts.Kept
import ImapGateway.Imap.Fields
import ImapGateway.Imap.Failures
import ImapGateway.Imap.Arrivals
import ImapGateway.Imap.Keys
import ImapGateway.Imap.UidSets
import ImapGateway.Imap.Wildcards
import ImapGateway.Mailbox.Books
import ImapGateway.Imap.Lifecycle
import ImapGateway.Imap.Occasions
import ImapGateway.Imap.Grammar
import ImapGateway.Imap.Relabeling
import ImapGateway.Imap.Inversion
import ImapGateway.Imap.Examine
import ImapGateway.Imap.Pairs
import ImapGateway.Imap.Barrier
import ImapGateway.Imap.Agreement
import ImapGateway.Imap.Convergence
import ImapGateway.Imap.Storing
import ImapGateway.Parser.Words
import ImapGateway.Imap.Framing
import ImapGateway.Imap.Reading
import ImapGateway.Imap.Verbs
import ImapGateway.Mailbox.Faults
import ImapGateway.Imap.Transcript
import ImapGateway.Imap.Connection
import ImapGateway.Imap.Readback
import ImapGateway.Mailbox.Removals
import ImapGateway.Imap.Expunging
import ImapGateway.Imap.Beliefs
import ImapGateway.Imap.Tellings

/-
The client's pagination.

A listing is asked for page by page.  A page names the token of the next one, and the
listing ends at a page that names none.
-/
import ImapGateway.Async.Generator

namespace ImapGateway
namespace Client

open Walk Async

/-! ## JSON -/

/-- What `json.loads` gives.  A float is kept as Python writes it, an object as its last
value for each key. -/
inductive Json where
  | null
  | bool (b : Bool)
  | int (n : Int)
  | float (text : String)
  | str (text : String)
  | arr (items : List Json)
  | obj (fields : List (String × Json))

/-- A JSON object. -/
abbrev Fields := List (String × Json)

/-- `dict.get` -/
def get (fields : Fields) (key : String) : Option Json := fields.lookup key

/-- Whether a value counts as true. -/
def Json.truthy : Json → Bool
  | .null => false
  | .bool b => b
  | .int n => decide (n ≠ 0)
  | .float text => decide (text ≠ "0.0") && decide (text ≠ "-0.0")
  | .str text => decide (text ≠ "")
  | .arr items => !items.isEmpty
  | .obj fields => !fields.isEmpty

/-- What comes of a body: a value, no UTF-8 or no JSON, or another exception (an integer of
too many digits, too deep a nesting). -/
inductive Loaded where
  | value (v : Json)
  | malformed
  | raised

/-- What is taken from Python: `json.loads` of UTF-8 text, and `str`. -/
structure Texts where
  loads : List UInt8 → Loaded
  str : Json → String
  str_str : ∀ text, str (.str text) = text
  str_ne : ∀ v : Json, v.truthy = true → str v ≠ ""

/-! ## Requests -/

/-- A query parameter; a list is written with its name before each member. -/
inductive Param where
  | one (value : String)
  | many (values : List String)
  deriving DecidableEq

/-- `dict.__setitem__` -/
def setParam (params : List (String × Param)) (name : String) (value : Param) :
    List (String × Param) :=
  if params.any (·.1 = name) then
    params.map fun p => if p.1 = name then (name, value) else p
  else params ++ [(name, value)]

structure Query where
  path : String
  params : List (String × Param)
  deriving DecidableEq

/-- What a request raises, or what the client makes of an answer it cannot use. -/
inductive Failure (ε : Type) where
  | request (e : ε)
  | unavailable (message : String)
  | internal

/-- What the pages of one listing have in common. -/
structure Listing where
  path : String
  params : List (String × Param)
  itemsKey : String
  noToken : ∀ p ∈ params, p.1 ≠ "page_token"

/-- The query for the page of a token. -/
def Listing.query (l : Listing) (token : Option String) : Query :=
  let q := setParam l.params "limit" (.one "100")
  { path := l.path,
    params := match token with
      | none => q
      | some token => if token = "" then q else setParam q "page_token" (.one token) }

/-- `list_messages` of the inbox that `inbox` names in a path. -/
def listMessages (inbox : String) (labels : List String) (includeTrash includeSpam ascending : Bool) :
    Listing where
  path := "/inboxes/" ++ inbox ++ "/messages"
  params := ("ascending", .one (if ascending then "true" else "false")) ::
    ((if labels.isEmpty then [] else [("labels", .many labels)]) ++
      ((if includeTrash then [("include_trash", .one "true")] else []) ++
        if includeSpam then [("include_spam", .one "true")] else []))
  itemsKey := "messages"
  noToken := by
    intro p hp
    cases includeTrash <;> cases includeSpam <;> cases labels <;> simp at hp <;> grind

/-- `list_drafts` -/
def listDrafts (inbox : String) : Listing where
  path := "/inboxes/" ++ inbox ++ "/drafts"
  params := []
  itemsKey := "drafts"
  noToken := nofun

section

variable {ε : Type} (txt : Texts)

/-- A coroutine of the client: it makes requests and yields the entries of pages. -/
abbrev Generator (ε α : Type) : Type :=
  Coro Unit Fields Query (fun _ => Except ε (List UInt8)) (Failure ε) α

/-- `_json` -/
def json (q : Query) : Generator ε Fields := do
  match ← Coro.request q with
  | .error e => throw (.request e)
  | .ok body =>
    if body = [] then return []
    else match txt.loads body with
      | .value (.obj fields) => return fields
      | .value _ => throw (.unavailable ("unexpected JSON shape from API (GET " ++ q.path ++ ")"))
      | .malformed => throw (.unavailable ("malformed JSON from API (GET " ++ q.path ++ ")"))
      | .raised => throw .internal

/-- An entry of a page is yielded if it is an object. -/
def yieldEntry (itemsKey : String) : Json → Generator ε Unit
  | .obj fields => Coro.perform fields
  | _ => throw (.unavailable ("malformed page: '" ++ itemsKey ++ "' entry is not an object"))

/-- The token of the next page. -/
def nextToken (page : Fields) : Option String :=
  match get page "next_page_token" with
  | none => none
  | some v => if v.truthy then some (txt.str v) else none

/-- A round of the loop of `_paginate`. -/
def turn (l : Listing) (token : Option String) : Generator ε (Option String) := do
  let page ← json txt (l.query token)
  match get page l.itemsKey with
  | none => throw (.unavailable ("malformed page: missing '" ++ l.itemsKey ++ "'"))
  | some (.arr items) =>
    Coro.each (yieldEntry l.itemsKey) items
    return nextToken txt page
  | some _ => throw (.unavailable ("malformed page: '" ++ l.itemsKey ++ "' is not a list"))

/-- So many rounds of `_paginate`; whether they were enough. -/
def paginate (l : Listing) (rounds : Nat) : Generator ε Bool :=
  Coro.follow (turn txt l) (.unavailable "pagination loop detected") rounds none []

/-! ## What a listing should be -/

variable (request : Query → Except ε (List UInt8))

/-- What so many rounds do against an upstream: the requests they make, the items they yield,
and how they end. -/
def generated (l : Listing) (rounds : Nat) : Generated Query Fields (Failure ε) Bool :=
  (paginate txt l rounds).generate request

/-- The query is for the page of a token, under the filters of the listing. -/
structure AsksFor (l : Listing) (token : Option String) (q : Query) : Prop where
  path : q.path = l.path
  filters : ∀ p, p.1 ≠ "limit" → p.1 ≠ "page_token" → (p ∈ q.params ↔ p ∈ l.params)
  token : ∀ value, ("page_token", value) ∈ q.params ↔ ∃ t, token = some t ∧ value = .one t

/-- The body upstream answers for a token is an object, and holds a list of objects. -/
structure HasPage (l : Listing) (token : Option String) (page : Fields) (items : List Fields) :
    Prop where
  answered : ∃ body, request (l.query token) = .ok body ∧ body ≠ [] ∧
    txt.loads body = .value (.obj page)
  items : page.lookup l.itemsKey = some (.arr (items.map .obj))

/-- The page has no `next_page_token`, or one that counts as false. -/
def Last (page : Fields) : Prop := ∀ v, page.lookup "next_page_token" = some v → v.truthy = false

/-- The `next_page_token` of the page, as a text. -/
def Names (page : Fields) (next : String) : Prop :=
  ∃ v, page.lookup "next_page_token" = some v ∧ v.truthy = true ∧ txt.str v = next

/-- The pages from that of a token to the first that names no next one: their tokens and
their items. -/
inductive Pages (l : Listing) : Option String → List (Option String) → List Fields → Prop
  | last {token page items} (h : HasPage txt request l token page items) (hlast : Last page) :
      Pages l token [token] items
  | step {token page items next tokens more} (h : HasPage txt request l token page items)
      (hnext : Names txt page next) (rest : Pages l (some next) tokens more) :
      Pages l token (token :: tokens) (items ++ more)

/-- A listing that ends has yielded the items of all pages, each asked for once; it ends where
the pages do, it stops where there are finitely many tokens, and how it stops does not hang on
how long it may go on. -/
structure Complete (l : Listing) : Prop where
  ended : ∀ rounds, (generated txt request l rounds).outcome = .ok true →
    ∃ tokens, Pages txt request l none tokens (generated txt request l rounds).yielded ∧
      (generated txt request l rounds).asked = tokens.map l.query ∧
      (∀ token ∈ tokens, AsksFor l token (l.query token)) ∧
      (generated txt request l rounds).asked.Nodup
  ends : ∀ tokens items, Pages txt request l none tokens items →
    ∃ rounds, generated txt request l rounds = ⟨tokens.map l.query, items, .ok true⟩
  stops : ∀ tokens : List String,
    (∀ token page items next, HasPage txt request l token page items → Names txt page next →
      next ∈ tokens) →
    ∃ rounds, (generated txt request l rounds).outcome ≠ .ok false
  settled : ∀ rounds more, (generated txt request l rounds).outcome ≠ .ok false →
    generated txt request l (rounds + more) = generated txt request l rounds

variable {txt request}

/-! ## Rounds -/

theorem nextToken_eq_none {page : Fields} : nextToken txt page = none ↔ Last page := by
  rw [nextToken, get, Last]
  cases page.lookup "next_page_token" with
  | none => simp
  | some v => simp

theorem nextToken_eq_some {page : Fields} {next : String} :
    nextToken txt page = some next ↔ Names txt page next := by
  rw [nextToken, get, Names]
  cases page.lookup "next_page_token" with
  | none => simp
  | some v => simp

theorem Names.ne {page : Fields} {next : String} (h : Names txt page next) : next ≠ "" := by
  obtain ⟨v, _, htruthy, rfl⟩ := h
  exact txt.str_ne v htruthy

/-- Entries are yielded up to the first that is no object. -/
theorem yieldEntries {itemsKey : String} {values : List Json} :
    (∃ items, values = items.map .obj ∧
      (Coro.each (yieldEntry itemsKey) values).generate request = ⟨[], items, .ok ()⟩) ∨
    ∃ items e, (Coro.each (yieldEntry itemsKey) values).generate request = ⟨[], items, .error e⟩ := by
  induction values with
  | nil => exact .inl ⟨[], rfl, rfl⟩
  | cons v values ih =>
    cases v with
    | obj fields =>
      have hcons : (Coro.each (yieldEntry itemsKey) (.obj fields :: values)).generate request =
          ((Coro.each (yieldEntry itemsKey) values).generate request).behind [] [fields] := rfl
      rcases ih with ⟨items, rfl, hgenerate⟩ | ⟨items, e, hgenerate⟩
      · left
        refine ⟨fields :: items, rfl, ?_⟩
        rw [hcons, hgenerate]
        rfl
      · right
        refine ⟨fields :: items, e, ?_⟩
        rw [hcons, hgenerate]
        rfl
    | _ => exact .inr ⟨[], _, rfl⟩

/-- The body of an answer is decoded to an object. -/
theorem generate_json_of_body {q : Query} {body : List UInt8} {page : Fields}
    (h : request q = .ok body) (hne : body ≠ []) (hloads : txt.loads body = .value (.obj page)) :
    (json txt q).generate request = ⟨[q], [], .ok page⟩ := by
  simp only [json, Coro.bind_eq, Coro.generate_request_bind, h, hne, hloads, if_false]
  rfl

/-- `_json` makes its request.  What it returns is the object the body holds, or nothing for an
empty body. -/
theorem generate_json (q : Query) :
    (∃ page, (json txt q).generate request = ⟨[q], [], .ok page⟩ ∧
      (page = [] ∨ ∃ body, request q = .ok body ∧ body ≠ [] ∧
        txt.loads body = .value (.obj page))) ∨
    ∃ e, (json txt q).generate request = ⟨[q], [], .error e⟩ := by
  cases hrequest : request q with
  | error e =>
    right
    refine ⟨.request e, ?_⟩
    simp only [json, Coro.bind_eq, Coro.generate_request_bind, hrequest]
    rfl
  | ok body =>
    by_cases hempty : body = []
    · left
      refine ⟨[], ?_, .inl rfl⟩
      simp only [json, Coro.bind_eq, Coro.generate_request_bind, hrequest, hempty, if_true]
      rfl
    cases hloads : txt.loads body with
    | value v =>
      cases v with
      | obj page =>
        have hjson := generate_json_of_body hrequest hempty hloads
        exact .inl ⟨page, hjson, .inr ⟨body, rfl, hempty, hloads⟩⟩
      | _ =>
        right
        refine ⟨.unavailable ("unexpected JSON shape from API (GET " ++ q.path ++ ")"), ?_⟩
        simp only [json, Coro.bind_eq, Coro.generate_request_bind, hrequest, hempty, hloads, if_false]
        rfl
    | malformed =>
      right
      refine ⟨.unavailable ("malformed JSON from API (GET " ++ q.path ++ ")"), ?_⟩
      simp only [json, Coro.bind_eq, Coro.generate_request_bind, hrequest, hempty, hloads, if_false]
      rfl
    | raised =>
      right
      refine ⟨.internal, ?_⟩
      simp only [json, Coro.bind_eq, Coro.generate_request_bind, hrequest, hempty, hloads, if_false]
      rfl

theorem generate_turn_of_page {l : Listing} {token : Option String} {page : Fields}
    {items : List Fields} (h : HasPage txt request l token page items) :
    (turn txt l token).generate request = ⟨[l.query token], items, .ok (nextToken txt page)⟩ := by
  obtain ⟨body, hrequest, hne, hloads⟩ := h.answered
  have hjson := generate_json_of_body hrequest hne hloads
  have hentries : (Coro.each (yieldEntry l.itemsKey) (items.map .obj)).generate request =
      ⟨[], items, .ok ()⟩ := by
    generalize items = items
    induction items with
    | nil => rfl
    | cons fields items ih =>
      show ((Coro.each (yieldEntry l.itemsKey) (items.map .obj)).generate request).behind _ _ = _
      rw [ih]
      rfl
  rw [turn, Coro.bind_eq, Coro.generate_bind_ok (a := page) (by rw [hjson]), hjson, get, h.items]
  simp only [Coro.bind_eq]
  rw [Coro.generate_bind_ok (a := ()) (by rw [hentries]), hentries]
  simp [Coro.generate, Generated.behind]

/-- A round asks for its page, and what goes on or ends has got it. -/
theorem generate_turn (l : Listing) (token : Option String) :
    ((turn txt l token).generate request).asked = [l.query token] ∧
    ∀ next, ((turn txt l token).generate request).outcome = .ok next → ∃ page items,
      HasPage txt request l token page items ∧ nextToken txt page = next := by
  rw [turn, Coro.bind_eq]
  rcases @generate_json ε txt request (l.query token) with ⟨page, hjson, hpage⟩ | ⟨e, hjson⟩
  · rw [Coro.generate_bind_ok (a := page) (by rw [hjson]), hjson]
    cases hget : get page l.itemsKey with
    | none =>
      refine ⟨rfl, fun next h => ?_⟩
      cases h
    | some v =>
      cases v with
      | arr values =>
        simp only [Coro.bind_eq]
        rcases @yieldEntries ε request l.itemsKey values with ⟨items, rfl, hentries⟩ | ⟨items, e, hentries⟩
        · rw [Coro.generate_bind_ok (a := ()) (by rw [hentries]), hentries]
          refine ⟨rfl, fun next h => ⟨page, items, ⟨?_, hget⟩, Except.ok.inj h⟩⟩
          rcases hpage with rfl | hbody
          · cases hget
          · exact hbody
        · rw [Coro.generate_bind_error (e := e) (by rw [hentries]), hentries]
          refine ⟨rfl, fun next h => ?_⟩
          cases h
      | _ =>
        refine ⟨rfl, fun next h => ?_⟩
        cases h
  · rw [Coro.generate_bind_error (e := e) (by rw [hjson]), hjson]
    refine ⟨rfl, fun next h => ?_⟩
    cases h

/-! ## Chains of pages -/

theorem pages_of_chain {l : Listing} {token : Option String} {tokens : List (Option String)}
    {items : List Fields} (h : Chain (Coro.generated request (turn txt l)) token tokens items) :
    Pages txt request l token tokens items := by
  have hyields : ∀ {token page items}, HasPage txt request l token page items →
      (Coro.generated request (turn txt l) token).items = items := by
    intro token page items hpage
    rw [Coro.generated, generate_turn_of_page hpage]
  induction h with
  | last hnone =>
    obtain ⟨page, items, hpage, hnext⟩ := (generate_turn l _).2 _ hnone
    rw [hyields hpage]
    exact .last hpage (nextToken_eq_none.mp hnext)
  | step hsome rest ih =>
    obtain ⟨page, items, hpage, hnext⟩ := (generate_turn l _).2 _ hsome
    rw [hyields hpage]
    exact .step hpage (nextToken_eq_some.mp hnext) ih

theorem Pages.chain {l : Listing} {token : Option String} {tokens : List (Option String)}
    {items : List Fields} (h : Pages txt request l token tokens items) :
    Chain (Coro.generated request (turn txt l)) token tokens items := by
  induction h with
  | @last token page items hpage hlast =>
    have hturn : Coro.generated request (turn txt l) token = ⟨items, .ok none⟩ := by
      rw [Coro.generated, generate_turn_of_page hpage, nextToken_eq_none.mpr hlast]
    have hnone : (Coro.generated request (turn txt l) token).next = .ok none := by rw [hturn]
    have hchain := Chain.last hnone
    rwa [hturn] at hchain
  | @step token page items next tokens more hpage hnext rest ih =>
    have hturn : Coro.generated request (turn txt l) token = ⟨items, .ok (some next)⟩ := by
      rw [Coro.generated, generate_turn_of_page hpage, nextToken_eq_some.mpr hnext]
    have hsome : (Coro.generated request (turn txt l) token).next = .ok (some next) := by rw [hturn]
    have hchain := Chain.step hsome ih
    rwa [hturn] at hchain

/-- The tokens of pages are none, for the first, or not empty. -/
theorem Pages.tokens_ne {l : Listing} {token : Option String} {tokens : List (Option String)}
    {items : List Fields} (h : Pages txt request l token tokens items) (hne : token ≠ some "") :
    some "" ∉ tokens := by
  induction h with
  | last => exact fun hmem => hne (List.mem_singleton.mp hmem).symm
  | step _ hnext _ ih =>
    intro hmem
    rcases List.mem_cons.mp hmem with heq | hmem
    · exact hne heq.symm
    · exact ih (fun heq => hnext.ne (Option.some.inj heq)) hmem

/-! ## Queries -/

theorem mem_setParam {params : List (String × Param)} {name : String} {value : Param}
    {p : String × Param} (h : p.1 ≠ name) : p ∈ setParam params name value ↔ p ∈ params := by
  unfold setParam
  split
  · constructor
    · intro hp
      obtain ⟨p', hp', rfl⟩ := List.mem_map.mp hp
      split at h
      · exact absurd rfl h
      · rename_i hname
        rwa [if_neg hname]
    · intro hp
      exact List.mem_map.mpr ⟨p, hp, if_neg h⟩
  · constructor
    · intro hp
      rcases List.mem_append.mp hp with hp | hp
      · exact hp
      · rw [List.mem_singleton.mp hp] at h
        exact absurd rfl h
    · exact List.mem_append_left _

theorem setParam_new {params : List (String × Param)} {name : String} (value : Param)
    (h : ∀ p ∈ params, p.1 ≠ name) : setParam params name value = params ++ [(name, value)] := by
  unfold setParam
  rw [if_neg]
  intro hany
  obtain ⟨p, hp, hname⟩ := List.any_eq_true.mp hany
  exact h p hp (of_decide_eq_true hname)

theorem Listing.limit_noToken (l : Listing) :
    ∀ p ∈ setParam l.params "limit" (.one "100"), p.1 ≠ "page_token" := by
  intro p hp hname
  have hlimit : p.1 ≠ "limit" := by
    rw [hname]
    decide
  exact l.noToken p ((mem_setParam hlimit).mp hp) hname

/-- Pages are asked for with queries of their own. -/
theorem Listing.query_inj (l : Listing) {token token' : Option String} (h : token ≠ some "")
    (h' : token' ≠ some "") (heq : l.query token = l.query token') : token = token' := by
  have hparams := congrArg Query.params heq
  have hnames := l.limit_noToken
  cases token with
  | none =>
    cases token' with
    | none => rfl
    | some t' =>
      have hne : t' ≠ "" := fun ht => h' (congrArg some ht)
      simp only [Listing.query, hne, if_false, setParam_new _ hnames] at hparams
      have hlen := congrArg List.length hparams
      simp at hlen
  | some t =>
    have hne : t ≠ "" := fun ht => h (congrArg some ht)
    cases token' with
    | none =>
      simp only [Listing.query, hne, if_false, setParam_new _ hnames] at hparams
      have hlen := congrArg List.length hparams
      simp at hlen
    | some t' =>
      have hne' : t' ≠ "" := fun ht => h' (congrArg some ht)
      simp only [Listing.query, hne, hne', if_false, setParam_new _ hnames] at hparams
      have hlast := List.append_cancel_left hparams
      simpa using hlast

/-- The query for a token asks for its page. -/
theorem Listing.query_asksFor (l : Listing) {token : Option String} (h : token ≠ some "") :
    AsksFor l token (l.query token) := by
  have hnames := l.limit_noToken
  cases token with
  | none =>
    refine ⟨rfl, fun p hlimit _ => mem_setParam hlimit, fun value => ?_⟩
    constructor
    · intro hp
      exact absurd rfl (hnames _ hp)
    · rintro ⟨t, ht, _⟩
      cases ht
  | some t =>
    have hne : t ≠ "" := fun ht => h (congrArg some ht)
    have hparams : (l.query (some t)).params =
        setParam l.params "limit" (.one "100") ++ [("page_token", .one t)] := by
      simp only [Listing.query, hne, if_false, setParam_new _ hnames]
    refine ⟨rfl, fun p hlimit htoken => ?_, fun value => ?_⟩
    · rw [hparams, List.mem_append, mem_setParam hlimit, or_iff_left]
      intro hp
      rw [List.mem_singleton.mp hp] at htoken
      exact htoken rfl
    · rw [hparams, List.mem_append]
      constructor
      · rintro (hp | hp)
        · exact absurd rfl (hnames _ hp)
        · cases List.mem_singleton.mp hp
          exact ⟨t, rfl, rfl⟩
      · rintro ⟨t', ht, rfl⟩
        cases ht
        exact .inr List.mem_cons_self

/-! ## Completeness -/

/-- So many rounds as a walk along the tokens. -/
def trace (txt : Texts) (request : Query → Except ε (List UInt8)) (l : Listing) (rounds : Nat) :
    Trace String Fields (Failure ε) :=
  walk (Coro.generated request (turn txt l)) (.unavailable "pagination loop detected") rounds none []

theorem generated_eq (l : Listing) (rounds : Nat) : generated txt request l rounds =
    ⟨(trace txt request l rounds).visited.map l.query, (trace txt request l rounds).items,
      Coro.endOf (trace txt request l rounds).outcome⟩ := by
  have hasked : ∀ tokens : List (Option String),
      (tokens.flatMap fun token => ((turn txt l token).generate request).asked) =
        tokens.map l.query := by
    intro tokens
    induction tokens with
    | nil => rfl
    | cons token tokens ih =>
      rw [List.flatMap_cons, (generate_turn l token).1, ih]
      rfl
  rw [generated, paginate, Coro.generate_follow, hasked]
  rfl

/-- A listing is complete, and stops. -/
theorem paginate_complete (txt : Texts) (request : Query → Except ε (List UInt8)) (l : Listing) :
    Complete txt request l := by
  constructor
  · intro rounds hended
    rw [generated_eq] at hended ⊢
    have hchain := chain_of_ended (Coro.endOf_eq_true.mp hended)
    have hpages := pages_of_chain hchain
    have hne := hpages.tokens_ne nofun
    refine ⟨_, hpages, rfl, fun token htoken => ?_, ?_⟩
    · exact l.query_asksFor fun h => hne (h ▸ htoken)
    · apply List.Nodup.map_on _ hchain.nodup
      intro token htoken token' htoken' heq
      exact l.query_inj (fun h => hne (h ▸ htoken)) (fun h => hne (h ▸ htoken')) heq
  · intro tokens items hpages
    have hwalk : trace txt request l tokens.length = ⟨items, tokens, some .ended⟩ :=
      hpages.chain.walks nofun
    refine ⟨tokens.length, ?_⟩
    rw [generated_eq, hwalk]
    rfl
  · intro tokens hfinite
    have hmet : ∀ token next,
        (Coro.generated request (turn txt l) token).next = .ok (some next) → next ∈ tokens := by
      intro token next hnext
      obtain ⟨page, items, hpage, hsome⟩ := (generate_turn l token).2 _ hnext
      exact hfinite token page items next hpage (nextToken_eq_some.mp hsome)
    have hstops : ∃ rounds, (trace txt request l rounds).outcome ≠ none :=
      walk_stops hmet none List.nodup_nil (List.nil_subset _)
    obtain ⟨rounds, hstops⟩ := hstops
    refine ⟨rounds, fun h => hstops ?_⟩
    rw [generated_eq] at h
    exact Coro.endOf_eq_false.mp h
  · intro rounds more hstopped
    have hwalk : trace txt request l (rounds + more) = trace txt request l rounds := by
      apply walk_more
      intro hnone
      rw [generated_eq] at hstopped
      exact hstopped (Coro.endOf_eq_false.mpr hnone)
    rw [generated_eq, generated_eq, hwalk]

end

/-! ## Two pages -/

def octets (text : String) : List UInt8 := text.toList.map fun ch => ch.toNat.toUInt8

/-- `str`; what it writes of lists and objects is cut short. -/
def demoStr : Json → String
  | .null => "None"
  | .bool b => if b then "True" else "False"
  | .int n => toString n
  | .float text => if text = "" then "nan" else text
  | .str text => text
  | .arr _ => "[...]"
  | .obj _ => "\x7b...\x7d"

theorem toString_int_ne (n : Int) : toString n ≠ "" := by
  intro h
  have hchars := congrArg String.toList h
  cases n <;> simp [toString, Int.repr, Nat.repr] at hchars

/-- The body of a page with one message, and a token for the next page if there is one. -/
def pageBody (id : String) (next : Option String) : List UInt8 :=
  octets ("\x7b\"messages\": [\x7b\"message_id\": \"" ++ id ++ "\"\x7d]" ++
    (match next with
    | some token => ", \"next_page_token\": \"" ++ token ++ "\""
    | none => "") ++ "\x7d")

def pageJson (id : String) (next : Option String) : Json :=
  .obj (("messages", .arr [.obj [("message_id", .str id)]]) ::
    match next with
    | some token => [("next_page_token", .str token)]
    | none => [])

/-- `json.loads`, of the bodies of two pages. -/
def demoTexts : Texts where
  loads body :=
    if body = pageBody "m1" (some "t") then .value (pageJson "m1" (some "t"))
    else if body = pageBody "m2" none then .value (pageJson "m2" none)
    else .malformed
  str := demoStr
  str_str _ := rfl
  str_ne v h := by
    cases v with
    | int n => exact toString_int_ne n
    | float text =>
      simp only [demoStr]
      split
      · decide
      · assumption
    | str text => simpa [Json.truthy, demoStr] using h
    | bool b => cases b <;> decide
    | _ => simp [demoStr]

def demoListing : Listing := listMessages "a%40x" ["received"] false false true

/-- An upstream with two pages, which knows one token. -/
def twoPages (q : Query) : Except Unit (List UInt8) :=
  if q = demoListing.query none then .ok (pageBody "m1" (some "t"))
  else if q = demoListing.query (some "t") then .ok (pageBody "m2" none)
  else .error ()

theorem paginate_complete_two_pages : generated demoTexts twoPages demoListing 2 =
      ⟨[demoListing.query none, demoListing.query (some "t")],
        [[("message_id", .str "m1")], [("message_id", .str "m2")]], .ok true⟩ ∧
    Complete demoTexts twoPages demoListing := by
  refine ⟨?_, paginate_complete demoTexts twoPages demoListing⟩
  rfl

end Client
end ImapGateway

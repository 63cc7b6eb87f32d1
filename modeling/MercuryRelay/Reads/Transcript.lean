/-
  Transcripts, page by page (session_reads.py, `_transcript`).

  A page is a part of the stored rows, without those that are hidden; where the next
  page starts is counted in stored rows.

  * `transcript_complete`: whoever follows `next_offset` gets every visible row once.
-/
import MercuryRelay.Lease.ReadResults
import MercuryRelay.Lib.Paging

set_option autoImplicit false

namespace MercuryRelay

open Python

def maxTranscriptLimit : ℤ := 500
def maxOffset : ℤ := 1000000
def maxSessionIdText : ℕ := 256

/-- A stored message, as the database gives it. -/
abbrev Message := List (Str × Json)

/-- What a read raises: a `SessionReadsError`, or what the encoder or a hash raises. -/
inductive ReadFault where
  | reads (reason : Str)
  | unicode
  | typeError
  deriving DecidableEq

def ResultFault.read : ResultFault → ReadFault
  | .reads reason => .reads reason
  | .unicode => .unicode

/-- A read-only `SessionDB`; `none` where it raises. -/
structure SessionDb where
  /-- `resolve_session_id`, of which nothing or an empty text is no session -/
  resolveSessionId : Str → Option (Option Str)
  resolveResumeSessionId : Str → Option Str
  getMessages : Str → ℕ → ℕ → Bool → Option (List Message)

structure SessionReads where
  depths : JsonDepths := ⟨900, 900⟩
  profileAuthorizer : Option (Str → Bool) := none
  /-- the reason of what it raises; an exception of another kind is a `read_failed` -/
  dbOpener : Str → Except Str SessionDb
  /-- `HIDDEN_DISPLAY_KINDS` of the host, if it has them -/
  hiddenDisplayKinds : List Str := []

inductive PageOrder where
  | latest | oldest
  deriving DecidableEq

def PageOrder.text : PageOrder → Str
  | .latest => lit "latest"
  | .oldest => lit "oldest"

structure TranscriptRequest where
  profile : Str
  sessionId : Str
  limit : ℕ
  offset : ℕ
  order : PageOrder

/-- `_require_int`; `none` where it raises. -/
def requireInt (value : Option Json) (minimum maximum default : ℤ) : Option ℤ :=
  match value with
  | none | some .null => some default
  | some (.int n) => if minimum ≤ n ∧ n ≤ maximum then some n else none
  | _ => none

/-- The session id of a request. -/
def transcriptSession : Option Json → Option Str
  | some (.str s) => if 1 ≤ s.length ∧ s.length ≤ maxSessionIdText ∧ 0 ∉ s then some s else none
  | _ => none

/-- `order`, which has to have a hash. -/
def transcriptOrder (value : Json) : Except ReadFault PageOrder :=
  if ¬ value.hashable then .error .typeError
  else if value = .str PageOrder.latest.text then .ok .latest
  else if value = .str PageOrder.oldest.text then .ok .oldest
  else .error (.reads (lit "invalid_params"))

namespace SessionReads

variable (reads : SessionReads)

/-- `_HIDDEN_TRANSCRIPT_KINDS`. -/
def hiddenTranscriptKinds : List Str :=
  reads.hiddenDisplayKinds ++ [lit "hidden", lit "internal_notification", lit "delegation_closeout",
    lit "delegation_closeout_provisional", lit "delegation_waiting"]

/-- `_authorized_profile`. -/
def authorizedProfile (params : List (Str × Json)) : Except ReadFault Str :=
  match (Json.lookup params (lit "profile")).getD (.str (lit "default")) with
  | .str profile =>
    if validateProfileId profile ∧ reads.profileAuthorizer.all (· profile) then .ok profile
    else .error (.reads (lit "profile_not_available"))
  | _ => .error (.reads (lit "profile_not_available"))

def transcriptFields : List Str := [lit "profile", lit "session_id", lit "limit", lit "offset", lit "order"]

/-- The checks of `_transcript`. -/
def parseTranscript (params : List (Str × Json)) : Except ReadFault TranscriptRequest :=
  if ¬ params.all (fun member => member.1 ∈ transcriptFields) then .error (.reads (lit "invalid_params"))
  else
    match reads.authorizedProfile params with
    | .error fault => .error fault
    | .ok profile =>
      match transcriptSession (Json.lookup params (lit "session_id")),
        requireInt (Json.lookup params (lit "limit")) 1 maxTranscriptLimit maxTranscriptLimit,
        requireInt (Json.lookup params (lit "offset")) 0 maxOffset 0 with
      | some sessionId, some limit, some offset =>
        match transcriptOrder ((Json.lookup params (lit "order")).getD (.str (lit "latest"))) with
        | .error fault => .error fault
        | .ok order => .ok ⟨profile, sessionId, limit.toNat, offset.toNat, order⟩
      | _, _, _ => .error (.reads (lit "invalid_params"))

/-- The message has a kind that is not shown. -/
def isHidden (message : Message) : Bool :=
  match Json.lookup message (lit "display_kind") with
  | some (.str kind) => kind ∈ reads.hiddenTranscriptKinds
  | _ => false

/-- The kind of a message has a hash, as all that a column holds. -/
def kindHashable (message : Message) : Bool := (Json.lookup message (lit "display_kind")).all Json.hashable

/-- The result of a page of stored messages. -/
def pageResult (resolved : Str) (request : TranscriptRequest) (messages : List Message) : List (Str × Json) :=
  let visible := messages.filter fun message => !reads.isHidden message
  [(lit "session_id", .str resolved), (lit "messages", .arr (visible.map .obj)),
    (lit "pagination", .obj [(lit "limit", .int request.limit), (lit "offset", .int request.offset),
      (lit "order", .str request.order.text), (lit "returned", .int visible.length),
      (lit "raw_returned", .int messages.length), (lit "next_offset", .int (request.offset + messages.length : ℕ))])]

/-- What `_transcript` reads from the database. -/
def readTranscript (request : TranscriptRequest) : Except ReadFault (List (Str × Json)) :=
  match reads.dbOpener request.profile with
  | .error reason => .error (.reads reason)
  | .ok db =>
    match db.resolveSessionId request.sessionId with
    | none => .error (.reads (lit "read_failed"))
    | some none | some (some []) => .error (.reads (lit "session_not_found"))
    | some (some resolved) =>
      match db.resolveResumeSessionId resolved with
      | none => .error (.reads (lit "read_failed"))
      | some resolved =>
        match db.getMessages resolved request.limit request.offset (request.order = .latest) with
        | none => .error (.reads (lit "read_failed"))
        | some messages =>
          if messages.all kindHashable then .ok (reads.pageResult resolved request messages)
          else .error (.reads (lit "read_failed"))

/-- `_transcript`. -/
def transcript (params : List (Str × Json)) : Except ReadFault (List (Str × Json)) :=
  match reads.parseTranscript params with
  | .error fault => .error fault
  | .ok request =>
    match reads.readTranscript request with
    | .error fault => .error fault
    | .ok result => (boundedResult reads.depths result).mapError ResultFault.read

/-! ## Whoever reads -/

/-- A member of `pagination`. -/
def pagination (result : List (Str × Json)) (name : Str) : Option Json :=
  match Json.lookup result (lit "pagination") with
  | some (.obj members) => Json.lookup members name
  | _ => none

/-- The messages of a result. -/
def messagesOf (result : List (Str × Json)) : List Json :=
  match Json.lookup result (lit "messages") with
  | some (.arr messages) => messages
  | _ => []

/-- The request of a page. -/
def pageParams (profile : Option Str) (sessionId : Str) (limit : ℕ) (order : PageOrder) (offset : ℕ) :
    List (Str × Json) :=
  (profile.map fun profile => (lit "profile", Json.str profile)).toList ++
    [(lit "session_id", .str sessionId), (lit "limit", .int limit), (lit "offset", .int offset),
      (lit "order", .str order.text)]

/-- The pages that are read from an offset on, as long as `raw_returned` is the limit. -/
inductive Follows (params : ℕ → List (Str × Json)) (limit : ℕ) : ℕ → List (List Json) → Prop
  | last {offset : ℕ} {result : List (Str × Json)} : reads.transcript (params offset) = .ok result →
    pagination result (lit "raw_returned") ≠ some (.int limit) → Follows params limit offset [messagesOf result]
  | next {offset next : ℕ} {result : List (Str × Json)} {pages : List (List Json)} :
    reads.transcript (params offset) = .ok result → pagination result (lit "raw_returned") = some (.int limit) →
    pagination result (lit "next_offset") = some (.int next) → Follows params limit next pages →
    Follows params limit offset (messagesOf result :: pages)

/-- The pages of stored rows. -/
def slice (rows : List Message) (limit : ℕ) : PageOrder → ℕ → List Message
  | .oldest => Paging.forward rows limit
  | .latest => Paging.backward rows limit

/-- The rows are stored for the session, and do not change. -/
structure Stores (profile sessionId resolved : Str) (rows : List Message) : Prop where
  opens : ∃ db, reads.dbOpener profile = .ok db ∧
    (∃ found, found ≠ [] ∧ db.resolveSessionId sessionId = some (some found) ∧
      db.resolveResumeSessionId found = some resolved) ∧
    ∀ limit offset order, db.getMessages resolved limit offset (order = PageOrder.latest) =
      some (slice rows limit order offset)
  /-- a column holds no list and no object -/
  kinds : ∀ message ∈ rows, kindHashable message = true

/-- The request is one that is served. -/
structure Admits (profile : Option Str) (sessionId : Str) (limit : ℕ) : Prop where
  profile : validateProfileId (profile.getD (lit "default")) = true ∧
    reads.profileAuthorizer.all (· (profile.getD (lit "default"))) = true
  sessionId : 1 ≤ sessionId.length ∧ sessionId.length ≤ maxSessionIdText ∧ 0 ∉ sessionId
  limit : 1 ≤ limit ∧ limit ≤ 500

section Pages

variable {reads : SessionReads} {profile : Option Str} {sessionId resolved : Str} {limit offset : ℕ}
  {order : PageOrder} {rows : List Message}

/-- The request of a page as it is parsed. -/
def pageRequest (profile : Option Str) (sessionId : Str) (limit : ℕ) (order : PageOrder) (offset : ℕ) :
    TranscriptRequest :=
  ⟨profile.getD (lit "default"), sessionId, limit, offset, order⟩

/-- The page of the rows from an offset on fits the result bound. -/
def PageFits (reads : SessionReads) (profile : Option Str) (sessionId resolved : Str) (rows : List Message)
    (limit : ℕ) (order : PageOrder) (offset : ℕ) : Prop :=
  boundedResult reads.depths (reads.pageResult resolved (pageRequest profile sessionId limit order offset)
      (slice rows limit order offset)) =
    .ok (reads.pageResult resolved (pageRequest profile sessionId limit order offset) (slice rows limit order offset))

theorem pageParams_parse (h : reads.Admits profile sessionId limit) (hoffset : offset ≤ 1000000) :
    reads.parseTranscript (pageParams profile sessionId limit order offset) =
      .ok (pageRequest profile sessionId limit order offset) := by
  have hfields : (pageParams profile sessionId limit order offset).all
      (fun member => member.1 ∈ transcriptFields) = true := by
    cases profile <;> cases order <;> rfl
  have hprofile : (Json.lookup (pageParams profile sessionId limit order offset) (lit "profile")).getD
      (.str (lit "default")) = .str (profile.getD (lit "default")) := by
    cases profile <;> rfl
  have hsession : Json.lookup (pageParams profile sessionId limit order offset) (lit "session_id") =
      some (.str sessionId) := by
    cases profile <;> rfl
  have hlimit : Json.lookup (pageParams profile sessionId limit order offset) (lit "limit") =
      some (.int limit) := by
    cases profile <;> rfl
  have hstart : Json.lookup (pageParams profile sessionId limit order offset) (lit "offset") =
      some (.int offset) := by
    cases profile <;> rfl
  have horder : Json.lookup (pageParams profile sessionId limit order offset) (lit "order") =
      some (.str order.text) := by
    cases profile <;> rfl
  have hauthorized : reads.authorizedProfile (pageParams profile sessionId limit order offset) =
      .ok (profile.getD (lit "default")) := by
    unfold authorizedProfile
    rw [hprofile]
    exact if_pos h.profile
  have hlimits : requireInt (some (.int limit)) 1 maxTranscriptLimit maxTranscriptLimit = some (limit : ℤ) := by
    have hbounds := h.limit
    refine if_pos ⟨?_, ?_⟩
    · omega
    · show (limit : ℤ) ≤ 500
      omega
  have hoffsets : requireInt (some (.int offset)) 0 maxOffset 0 = some (offset : ℤ) := by
    refine if_pos ⟨?_, ?_⟩
    · omega
    · show (offset : ℤ) ≤ 1000000
      omega
  have hknown : transcriptOrder (.str order.text) = .ok order := by
    cases order <;> rfl
  have hid : transcriptSession (some (.str sessionId)) = some sessionId := if_pos h.sessionId
  unfold parseTranscript
  rw [if_neg (by simp only [hfields, not_true, not_false_eq_true]), hauthorized]
  dsimp only
  rw [hsession, hlimit, hstart, horder, hid, hlimits, hoffsets]
  dsimp only
  rw [Option.getD_some, hknown]
  rfl

/-- What a page of stored rows comes to. -/
theorem transcript_page (h : reads.Admits profile sessionId limit)
    (hstores : reads.Stores (profile.getD (lit "default")) sessionId resolved rows) (hoffset : offset ≤ 1000000)
    (hfits : reads.PageFits profile sessionId resolved rows limit order offset) :
    reads.transcript (pageParams profile sessionId limit order offset) =
      .ok (reads.pageResult resolved (pageRequest profile sessionId limit order offset)
        (slice rows limit order offset)) := by
  obtain ⟨db, hopen, ⟨found, hfound, hresolve, hresume⟩, hmessages⟩ := hstores.opens
  have hslice : ∀ message ∈ slice rows limit order offset, message ∈ rows := by
    intro message hmem
    cases order with
    | oldest => exact List.mem_of_mem_drop (List.mem_of_mem_take hmem)
    | latest => exact List.mem_of_mem_take (List.mem_of_mem_drop hmem)
  have hread : reads.readTranscript (pageRequest profile sessionId limit order offset) =
      .ok (reads.pageResult resolved (pageRequest profile sessionId limit order offset)
        (slice rows limit order offset)) := by
    unfold readTranscript
    have hprofile : (pageRequest profile sessionId limit order offset).profile = profile.getD (lit "default") := rfl
    rw [hprofile, hopen]
    dsimp only
    have hsession : (pageRequest profile sessionId limit order offset).sessionId = sessionId := rfl
    rw [hsession, hresolve]
    cases found with
    | nil => exact absurd rfl hfound
    | cons c found =>
      dsimp only
      rw [hresume]
      dsimp only
      have hget : db.getMessages resolved (pageRequest profile sessionId limit order offset).limit
          (pageRequest profile sessionId limit order offset).offset
          ((pageRequest profile sessionId limit order offset).order = .latest) =
          some (slice rows limit order offset) := hmessages limit offset order
      rw [hget]
      dsimp only
      rw [if_pos]
      rw [List.all_eq_true]
      exact fun message hmem => hstores.kinds message (hslice message hmem)
  unfold transcript
  rw [pageParams_parse h hoffset]
  dsimp only
  rw [hread]
  dsimp only
  rw [hfits]
  rfl

/-- The visible messages of a page. -/
def shown (reads : SessionReads) (messages : List Message) : List Json :=
  (messages.filter fun message => !reads.isHidden message).map .obj

theorem shown_flatten (pages : List (List Message)) :
    (pages.map reads.shown).flatten = reads.shown pages.flatten := by
  unfold shown
  rw [List.filter_flatten, List.map_flatten, List.map_map]
  rfl

/-- Whoever reads gets the visible messages of the pages of rows. -/
theorem follows_of_followed {pages : List (List Message)} (h : reads.Admits profile sessionId limit)
    (hstores : reads.Stores (profile.getD (lit "default")) sessionId resolved rows) (hrows : rows.length ≤ 1000000)
    (hfits : ∀ n, n * limit ≤ rows.length → reads.PageFits profile sessionId resolved rows limit order (n * limit))
    (hfollowed : Paging.Followed (slice rows limit order) limit offset pages) (hoffset : offset ≤ rows.length)
    (hvisited : ∃ n, offset = n * limit) :
    reads.Follows (pageParams profile sessionId limit order) limit offset (pages.map reads.shown) := by
  have hlength : ∀ offset, (slice rows limit order offset).length = min limit (rows.length - offset) := by
    intro offset
    cases order with
    | oldest => exact Paging.forward_length
    | latest => exact Paging.backward_length
  induction hfollowed with
  | @last offset hshort =>
    obtain ⟨n, rfl⟩ := hvisited
    refine .last (transcript_page h hstores (hoffset.trans hrows) (hfits n hoffset)) fun hfull => hshort ?_
    have hraw : Json.int (slice rows limit order (n * limit)).length = .int limit := Option.some.inj hfull
    injection hraw with hraw
    exact_mod_cast hraw
  | @next offset pages hfull _ ih =>
    obtain ⟨n, rfl⟩ := hvisited
    have hpositive := h.limit.1
    have hnext := hlength (n * limit)
    have hvisited : ∃ k, n * limit + (slice rows limit order (n * limit)).length = k * limit :=
      ⟨n + 1, by rw [hfull, Nat.succ_mul]⟩
    refine .next (transcript_page h hstores (hoffset.trans hrows) (hfits n hoffset)) ?_ rfl (ih (by omega) hvisited)
    show some (Json.int (slice rows limit order (n * limit)).length) = some (.int limit)
    rw [hfull]

theorem Follows.unique {params : ℕ → List (Str × Json)} {pages pages' : List (List Json)}
    (h : reads.Follows params limit offset pages) (h' : reads.Follows params limit offset pages') :
    pages' = pages := by
  induction h generalizing pages' with
  | last hresult hraw =>
    cases h' with
    | last hresult' => rw [Except.ok.inj (hresult'.symm.trans hresult)]
    | next hresult' hraw' =>
      rw [Except.ok.inj (hresult'.symm.trans hresult)] at hraw'
      exact absurd hraw' hraw
  | next hresult hraw hnext _ ih =>
    cases h' with
    | last hresult' hraw' =>
      rw [Except.ok.inj (hresult'.symm.trans hresult)] at hraw'
      exact absurd hraw hraw'
    | next hresult' hraw' hnext' hrest =>
      obtain rfl := Except.ok.inj (hresult'.symm.trans hresult)
      have hsame := Option.some.inj (hnext'.symm.trans hnext)
      injection hsame with hsame
      obtain rfl := Int.ofNat.inj hsame
      rw [ih hrest]

end Pages

end SessionReads

/-- **A transcript is complete and exact.**  Whoever starts at offset 0, and follows
    `next_offset` while the page is full, comes to an end, if every page on the way fits; the pages hold every row that is
    not hidden once, in the order of the pages: from the oldest on, or from the latest. -/
theorem transcript_complete {reads : SessionReads} {profile : Option Str} {sessionId resolved : Str} {limit : ℕ}
    {order : PageOrder} {rows : List Message} (h : reads.Admits profile sessionId limit)
    (hstores : reads.Stores (profile.getD (lit "default")) sessionId resolved rows) (hrows : rows.length ≤ 1000000)
    (hfits : ∀ n, n * limit ≤ rows.length → reads.PageFits profile sessionId resolved rows limit order (n * limit)) :
    ∃ pages, reads.Follows (SessionReads.pageParams profile sessionId limit order) limit 0 pages ∧
      (∀ pages', reads.Follows (SessionReads.pageParams profile sessionId limit order) limit 0 pages' → pages' = pages) ∧
      (match order with
        | .oldest => pages.flatten
        | .latest => pages.reverse.flatten) =
        (rows.filter fun message => !reads.isHidden message).map .obj := by
  obtain ⟨slices, hslices, hall⟩ : ∃ slices, Paging.Followed (SessionReads.slice rows limit order) limit 0 slices ∧
      (match order with
        | .oldest => slices.flatten
        | .latest => slices.reverse.flatten) = rows := by
    cases order with
    | oldest => exact Paging.followed_forward h.limit.1 (Nat.zero_le _)
    | latest =>
      obtain ⟨slices, hslices, hall⟩ := Paging.followed_backward h.limit.1 (Nat.zero_le _)
      exact ⟨slices, hslices, hall.trans (List.take_length)⟩
  have hfollows := SessionReads.follows_of_followed h hstores hrows hfits hslices (Nat.zero_le _) ⟨0, (Nat.zero_mul _).symm⟩
  refine ⟨_, hfollows, fun pages' h' => hfollows.unique h', ?_⟩
  cases order with
  | oldest =>
    dsimp only at hall ⊢
    rw [SessionReads.shown_flatten, hall]
    rfl
  | latest =>
    dsimp only at hall ⊢
    rw [← List.map_reverse, SessionReads.shown_flatten, hall]
    rfl

/-- Three messages, of which the second is not shown. -/
def threeMessages : List Message :=
  [[(lit "id", .int 1)], [(lit "id", .int 2), (lit "display_kind", .str (lit "hidden"))],
    [(lit "id", .int 3), (lit "display_kind", .null)]]

/-- A database that holds them. -/
def threeReads : SessionReads where
  dbOpener _ := .ok {
    resolveSessionId := fun s => some (some s)
    resolveResumeSessionId := some
    getMessages := fun _ limit offset latest =>
      some (SessionReads.slice threeMessages limit (if latest then .latest else .oldest) offset) }

theorem transcript_complete_three : ∃ pages : List (List Json),
    threeReads.Follows (SessionReads.pageParams none (lit "s") 2 .latest) 2 0 pages ∧
      pages.reverse.flatten = [.obj [(lit "id", .int 1)], .obj [(lit "id", .int 3), (lit "display_kind", .null)]] := by
  have hadmits : threeReads.Admits none (lit "s") 2 := ⟨by decide, by decide, by decide⟩
  have hstores : threeReads.Stores (lit "default") (lit "s") (lit "s") threeMessages := by
    refine ⟨⟨_, rfl, ⟨lit "s", by decide, rfl, rfl⟩, fun limit offset order => ?_⟩, by decide⟩
    cases order <;> rfl
  have hfits : ∀ n, n * 2 ≤ threeMessages.length →
      threeReads.PageFits none (lit "s") (lit "s") threeMessages 2 .latest (n * 2) := by
    intro n hn
    have hlength : threeMessages.length = 3 := rfl
    obtain rfl | rfl : n = 0 ∨ n = 1 := by omega
    · unfold SessionReads.PageFits
      decide +kernel
    · unfold SessionReads.PageFits
      decide +kernel
  obtain ⟨pages, hpages, -, hall⟩ := transcript_complete hadmits hstores (by decide) hfits
  exact ⟨pages, hpages, hall⟩

end MercuryRelay

import StudioOS.LocalUsage.Attribution

/-!
# Deltas — what is emitted of one message, over any scans

A scan emits of a message what its counters have grown by since it was last
counted, if they have grown in total.
-/

namespace StudioOS.LocalUsage.OpenCode

open List

/-! ## One read -/

/-- The counters of a row that has a time. -/
def rowTokens (env : StoreEnv) (row : MessageRow) : Option BilledTokens :=
  match loadData env.toEnv row.data with
  | .ok (some data) =>
    match assistantTokens data, responseTime env.toEnv data row with
    | some tokens, .ok (some _) => some tokens
    | _, _ => none
  | _ => none

/-- The counters of a message, as a read observes them. -/
def observe (env : StoreEnv) (db : Database) (since : Int) (id : String) : Option BilledTokens :=
  ((assistantRows env db since).find? fun row => row.1.id = id).bind fun row =>
    rowTokens env row.1

/-- The counters stored of a message. -/
def stored (messages : List (String × CountedMessage)) (id : String) : BilledTokens :=
  ((lookup messages id).map CountedMessage.tokens).getD BilledTokens.none

/-- The items of a message. -/
def own (items : List Item) (id : String) : List Item :=
  items.filter fun item => item.messageId = some id

/-- The tokens that are emitted of a message. -/
def deltas (items : List Item) (id : String) : List BilledTokens :=
  (own items id).filterMap fun item => item.usage?.map UsageEvent.tokens

/-- The counters have grown over those that are stored. -/
def grows (before tokens : BilledTokens) : Bool := 0 < (delta tokens before).total.getD 0

variable {env : StoreEnv} {messages : List (String × CountedMessage)} {id : String}

theorem collectRow_tokens {row : MessageRow} {session : SessionRow} {found : Option Item}
    (h : collectRow env messages row session = .ok found) :
    (∀ item ∈ found, item.messageId = some row.id ∧
      item.usage?.map UsageEvent.tokens = item.tokens.map (delta · (stored messages row.id))) ∧
    found.map Item.tokens =
      ((rowTokens env row).filter (grows (stored messages row.id))).map some := by
  simp only [collectRow] at h
  obtain ⟨data, hdata, h⟩ := bind_ok h
  cases data with
  | none =>
    cases h
    simp [rowTokens, hdata]
  | some data =>
    cases htokens : assistantTokens data with
    | none =>
      simp only [htokens] at h
      cases h
      simp [rowTokens, hdata, htokens]
    | some tokens =>
      simp only [htokens] at h
      obtain ⟨ts, hts, h⟩ := bind_ok h
      cases ts with
      | none =>
        cases h
        simp [rowTokens, hdata, htokens, hts]
      | some ts =>
        simp only at h
        split at h
        · rename_i hle
          cases h
          have hnot : grows (stored messages row.id) tokens = false :=
            decide_eq_false (Int.not_lt.mpr hle)
          simp [rowTokens, hdata, htokens, hts, Option.filter, hnot]
        · rename_i hlt
          cases h
          have hgrows : grows (stored messages row.id) tokens = true :=
            decide_eq_true (Int.not_le.mp hlt)
          simp only [rowTokens, hdata, htokens, hts, Option.filter, hgrows, if_true]
          exact ⟨fun item hitem => by cases hitem; exact ⟨rfl, rfl⟩, rfl⟩

theorem own_collected {rows : List (MessageRow × SessionRow)} {results : List (Option Item)}
    (hresults : rows.mapM (fun row => collectRow env messages row.1 row.2) = .ok results)
    (hdistinct : (rows.map fun row => row.1.id).Nodup) :
    own (results.filterMap fun item => item) id =
      ((rows.find? fun row => row.1.id = id).bind fun row =>
        (collectRow env messages row.1 row.2).toOption.join).toList := by
  induction rows generalizing results with
  | nil =>
    cases hresults
    rfl
  | cons row rows ih =>
    rw [mapM_cons] at hresults
    obtain ⟨first, hfirst, hresults⟩ := bind_ok hresults
    obtain ⟨rest, hrest, hresults⟩ := bind_ok hresults
    cases hresults
    rw [map_cons, nodup_cons] at hdistinct
    have hown := ih hrest hdistinct.2
    have hid := (collectRow_tokens hfirst).1
    by_cases hrow : row.1.id = id
    · have hnone : rows.find? (fun row => row.1.id = id) = none := by
        rw [find?_eq_none]
        intro other hother heq
        refine hdistinct.1 (mem_map.mpr ⟨other, hother, ?_⟩)
        rw [hrow]
        simpa using heq
      rw [hnone] at hown
      cases first with
      | none => simpa [hrow, hfirst, Except.toOption] using hown
      | some item =>
        have hitem := (hid item rfl).1
        rw [hrow] at hitem
        simp only [own] at hown
        simp [own, hrow, hfirst, hitem, hown, Except.toOption]
    · cases first with
      | none => simpa [hrow] using hown
      | some item =>
        have hitem := (hid item rfl).1
        simp only [own] at hown
        simp [own, hrow, hitem, hown]

theorem assistantRows_distinct {db : Database} (h : (db.messages.map MessageRow.id).Nodup)
    (since : Int) : ((assistantRows env db since).map fun row => row.1.id).Nodup := by
  refine ((mergeSort_perm _ _).map _).nodup_iff.mpr (Nodup.sublist (filter_sublist.map _) ?_)
  rw [Nodup, pairwise_map] at h ⊢
  refine h.filterMap _ fun a b hab a' ha' b' hb' => ?_
  obtain ⟨session, -, rfl⟩ := Option.map_eq_some_iff.mp ha'
  obtain ⟨session', -, rfl⟩ := Option.map_eq_some_iff.mp hb'
  exact hab

theorem takeClaims_messageId (claims : List (String × Fingerprint))
    (taken : List (String × TaskClaim)) :
    ∀ item ∈ (takeClaims claims taken).2, item.messageId = none := by
  induction taken generalizing claims with
  | nil => simp [takeClaims]
  | cons claim rest ih =>
    intro item hitem
    simp only [takeClaims, mem_append] at hitem
    rcases hitem with hitem | hitem
    · unfold takeClaim at hitem
      split at hitem
      · cases hitem
      · rw [mem_singleton.mp hitem]
    · exact ih _ item hitem

theorem lookup_countMessages {messages' : List (String × CountedMessage)} {items : List Item}
    (h : lookup messages id = lookup messages' id) : lookup (countMessages messages items) id =
      lookup (countMessages messages' (own items id)) id := by
  induction items generalizing messages messages' with
  | nil => exact h
  | cons item items ih =>
    by_cases hid : item.messageId = some id
    · rw [own, filter_cons_of_pos (by simpa using hid), countMessages, countMessages, foldl_cons,
        foldl_cons]
      refine ih ?_
      rw [hid]
      cases item.tokens with
      | none => exact h
      | some tokens => simp [lookup_assign]
    · rw [own, filter_cons_of_neg (by simpa using hid), countMessages, foldl_cons]
      refine ih ?_
      rw [← h]
      split
      · rename_i other tokens hother _
        rw [lookup_assign, if_neg]
        rintro rfl
        exact hid hother
      · rfl

theorem prune_of_le (h : messages.length ≤ maxStateMessages) : prune messages = messages := if_pos h

/-- **What a read does to a message**: it emits the growth of the counters it observes, and
stores them, if there is any. -/
theorem read_message {db : Database} {floor : Int} {state : Option ReaderState}
    (hdistinct : (db.messages.map MessageRow.id).Nodup)
    (hraised : (read env (some db) floor state).raised = false)
    (hcount : (countMessages (state.elim [] ReaderState.messages)
      (read env (some db) floor state).items).length ≤ maxStateMessages) :
    let before := stored (state.elim [] ReaderState.messages) id
    let counted := (observe env db (sinceMillis floor state) id).filter (grows before)
    deltas (read env (some db) floor state).items id = (counted.map (delta · before)).toList ∧
      stored ((read env (some db) floor state).state.elim [] ReaderState.messages) id =
        counted.getD before := by
  intro before counted
  cases hcollect : collect env db (sinceMillis floor state)
      (state.elim [] ReaderState.messages) with
  | error raised => simp [read, hcollect] at hraised
  | ok collected =>
    obtain ⟨found, version⟩ := collected
    have hclaims : (readClaims env (state.elim [] ReaderState.claims)
        (partRows env db (sinceMillis floor state))).raised = false := by
      by_contra h
      rw [Bool.not_eq_false] at h
      simp [read, hcollect, h] at hraised
    have hitems : (read env (some db) floor state).items = (found ++ (readClaims env
        (state.elim [] ReaderState.claims)
          (partRows env db (sinceMillis floor state))).items).mergeSort Item.before := by
      simp [read, hcollect, hclaims]
    have hstored : stored ((read env (some db) floor state).state.elim [] ReaderState.messages) id =
        stored (countMessages (state.elim [] ReaderState.messages)
          (own (read env (some db) floor state).items id)) id := by
      rw [stored, stored, ← lookup_countMessages rfl, ← prune_of_le hcount, hitems]
      simp [read, hcollect, hclaims]
    obtain ⟨results, hresults, hfound⟩ := bind_ok hcollect
    cases hfound
    have hown := @own_collected env _ id _ _ hresults (assistantRows_distinct hdistinct _)
    have hperm : (own (read env (some db) floor state).items id).Perm
        (own (results.filterMap fun item => item) id) := by
      rw [hitems]
      refine ((mergeSort_perm _ _).filter _).trans ?_
      have hnone : own (readClaims env (state.elim [] ReaderState.claims)
          (partRows env db (sinceMillis floor state))).items id = [] := by
        rw [(readClaims_returns hclaims).2, own, filter_eq_nil_iff]
        intro item hitem
        simp [takeClaims_messageId _ _ item hitem]
      rw [filter_append]
      exact (append_nil _ ▸ congrArg (_ ++ ·) hnone) ▸ .refl _
    rw [hown] at hperm
    rw [deltas, hstored]
    cases hfind : (assistantRows env db (sinceMillis floor state)).find? fun row =>
        row.1.id = id with
    | none =>
      have hcounted : counted = none := by simp [counted, observe, hfind]
      rw [hfind] at hperm
      rw [perm_nil.mp hperm, hcounted]
      exact ⟨rfl, rfl⟩
    | some row =>
      have hid : row.1.id = id := by simpa using find?_some hfind
      obtain ⟨item, -, hrow⟩ := (mapM_results hresults).1 row (mem_of_find?_eq_some hfind)
      obtain ⟨hitem, htokens⟩ := collectRow_tokens hrow
      have hcounted : item.map Item.tokens = counted.map some := by
        rw [htokens, hid]
        simp [counted, before, observe, hfind]
      rw [hfind, Option.bind_some, hrow] at hperm
      cases item with
      | none =>
        rw [Option.map_none, eq_comm, Option.map_eq_none_iff] at hcounted
        rw [perm_nil.mp hperm, hcounted]
        exact ⟨rfl, rfl⟩
      | some item =>
        obtain ⟨tokens, hsome, heq⟩ := Option.map_eq_some_iff.mp hcounted.symm
        obtain ⟨hmessage, husage⟩ := hitem item rfl
        rw [hid] at hmessage husage
        rw [perm_singleton.mp hperm, hsome]
        rw [← heq] at husage
        refine ⟨?_, ?_⟩
        · simp [husage, before]
        · simp [stored, countMessages, hmessage, ← heq, lookup_assign]

theorem read_raised {db : Option Database} {floor : Int} {state : Option ReaderState}
    (h : (read env db floor state).raised = true) : (read env db floor state).items = [] ∧
      (read env db floor state).state.elim [] ReaderState.messages =
        state.elim [] ReaderState.messages := by
  cases db with
  | none => cases h
  | some db =>
    cases hcollect : collect env db (sinceMillis floor state)
        (state.elim [] ReaderState.messages) with
    | error raised => simp [read, hcollect]
    | ok collected =>
      by_cases hclaims : (readClaims env (state.elim [] ReaderState.claims)
          (partRows env db (sinceMillis floor state))).raised
      · cases state <;> simp_all [read]
      · simp [read, hcollect, hclaims] at h

/-- From the counters last observed to new ones: no counter has changed, or they have grown in
total and none that was positive is absent. -/
def Telescopes (seen tokens : BilledTokens) : Prop :=
  tokens.amounts = seen.amounts ∨ (seen.total.getD 0 < tokens.total.getD 0 ∧
    (tokens.input = none → seen.input.getD 0 = 0) ∧
    (tokens.output = none → seen.output.getD 0 = 0) ∧
    (tokens.cacheRead = none → seen.cacheRead.getD 0 = 0) ∧
    (tokens.cacheWrite = none → seen.cacheWrite.getD 0 = 0))

theorem total_getD (tokens : BilledTokens) : tokens.total.getD 0 = tokens.input.getD 0 +
    tokens.output.getD 0 + tokens.cacheRead.getD 0 + tokens.cacheWrite.getD 0 := by
  unfold BilledTokens.total
  split
  · rename_i h
    simp only [Option.isNone_iff_eq_none] at h
    simp [h]
  · rfl

theorem add_delta_iff (new : Option Int) (old : Int) :
    old + (new.map (· - old)).getD 0 = new.getD 0 ↔ (new = none → old = 0) := by
  cases new with
  | none | some => simp

theorem delta_getD {new : Option Int} {old : Int} (h : new = none → old = 0) :
    (new.map (· - old)).getD 0 = new.getD 0 - old := by
  have := (add_delta_iff new old).mpr h
  omega

theorem none_of_eq {new : Option Int} {old : Int} (h : new.getD 0 = old) (hnone : new = none) :
    old = 0 := by
  rw [← h, hnone]
  rfl

theorem amounts_delta_iff {seen before tokens : BilledTokens} (h : before.amounts = seen.amounts) :
    (seen.amounts + if grows before tokens then (delta tokens before).amounts else 0) =
      tokens.amounts ↔ Telescopes seen tokens := by
  simp only [BilledTokens.amounts, Prod.mk.injEq] at h
  obtain ⟨hinput, houtput, hread, hwrite⟩ := h
  simp only [Telescopes, grows, total_getD, BilledTokens.amounts, delta, hinput, houtput, hread,
    hwrite, decide_eq_true_eq, Prod.mk.injEq]
  constructor
  · intro heq
    split at heq
    · rename_i hpos
      simp only [Prod.mk_add_mk, Prod.mk.injEq, add_delta_iff] at heq
      obtain ⟨h₁, h₂, h₃, h₄⟩ := heq
      rw [delta_getD h₁, delta_getD h₂, delta_getD h₃, delta_getD h₄] at hpos
      exact .inr ⟨by omega, h₁, h₂, h₃, h₄⟩
    · simp only [add_zero, Prod.mk.injEq] at heq
      exact .inl ⟨heq.1.symm, heq.2.1.symm, heq.2.2.1.symm, heq.2.2.2.symm⟩
  · rintro (⟨h₁, h₂, h₃, h₄⟩ | ⟨hlt, h₁, h₂, h₃, h₄⟩)
    · rw [delta_getD (none_of_eq h₁), delta_getD (none_of_eq h₂), delta_getD (none_of_eq h₃),
        delta_getD (none_of_eq h₄), if_neg (by omega), add_zero, h₁, h₂, h₃, h₄]
    · rw [delta_getD h₁, delta_getD h₂, delta_getD h₃, delta_getD h₄, if_pos (by omega)]
      simp only [Prod.mk_add_mk, Prod.mk.injEq]
      omega

/-! ## Any scans -/

structure Tracked where
  db : Database
  state : Option ReaderState
  /-- The tokens emitted of the message. -/
  emitted : List BilledTokens
  /-- Its counters, as a scan last observed them. -/
  seen : BilledTokens

inductive Happening where
  | write (db : Database)
  | scan (floor : Int) (reachable : Bool)

namespace Tracked

def initial : Tracked :=
  { db := World.initial.db, state := none, emitted := [], seen := BilledTokens.none }

def store (s : Tracked) : List (String × CountedMessage) := s.state.elim [] ReaderState.messages

def outcome (env : StoreEnv) (s : Tracked) (floor : Int) (reachable : Bool) : Outcome :=
  read env (if reachable then some s.db else none) floor s.state

/-- What a scan that returns observes of the message. -/
def observes (env : StoreEnv) (id : String) (s : Tracked) (floor : Int) (reachable : Bool) :
    Option BilledTokens :=
  if reachable ∧ (s.outcome env floor reachable).raised = false then
    observe env s.db (sinceMillis floor s.state) id
  else none

def next (env : StoreEnv) (id : String) (s : Tracked) : Happening → Tracked
  | .write db => { s with db }
  | .scan floor reachable =>
    { s with
      state := (s.outcome env floor reachable).state
      emitted := s.emitted ++ deltas (s.outcome env floor reachable).items id
      seen := (s.observes env id floor reachable).getD s.seen }

def after (env : StoreEnv) (id : String) (happenings : List Happening) : Tracked :=
  happenings.foldl (next env id) initial

/-- The deltas add up to the counters last observed. -/
def Telescoped (s : Tracked) : Prop :=
  (s.emitted.map BilledTokens.amounts).sum = s.seen.amounts

/-- Ids of messages are distinct, and `_prune` drops none. -/
def Within (env : StoreEnv) (s : Tracked) : Happening → Prop
  | .write db => (db.messages.map MessageRow.id).Nodup
  | .scan floor reachable =>
    (countMessages s.store (s.outcome env floor reachable).items).length ≤ maxStateMessages

/-- The counters that the scan observes telescope. -/
def Meets (env : StoreEnv) (id : String) (s : Tracked) : Happening → Prop
  | .write _ => True
  | .scan floor reachable => ∀ tokens ∈ s.observes env id floor reachable, Telescopes s.seen tokens

variable {s : Tracked} {happening : Happening}

theorem outcome_message {floor reachable} (hdistinct : (s.db.messages.map MessageRow.id).Nodup)
    (h : s.Within env (.scan floor reachable)) : let before := stored s.store id
    let counted := (s.observes env id floor reachable).filter (grows before)
    deltas (s.outcome env floor reachable).items id = (counted.map (delta · before)).toList ∧
      stored ((s.outcome env floor reachable).state.elim [] ReaderState.messages) id =
        counted.getD before := by
  intro before counted
  cases reachable with
  | false => simp [counted, observes, outcome, read, deltas, own, before, store]
  | true =>
    have houtcome : s.outcome env floor true = read env (some s.db) floor s.state := rfl
    simp only [counted, before, store, observes, houtcome, true_and]
    cases hraised : (read env (some s.db) floor s.state).raised with
    | false => exact @read_message env id s.db floor s.state hdistinct hraised h
    | true =>
      obtain ⟨hitems, hmessages⟩ := read_raised hraised
      simp [hitems, hmessages, deltas, own]

/-- What holds while the deltas telescope. -/
structure Sound (id : String) (s : Tracked) : Prop where
  telescoped : s.Telescoped
  stored : (OpenCode.stored s.store id).amounts = s.seen.amounts
  distinct : (s.db.messages.map MessageRow.id).Nodup

theorem Sound.next (hs : s.Sound id) (h : s.Within env happening) :
    ((s.next env id happening).Telescoped ↔ s.Meets env id happening) ∧
      (s.Meets env id happening → (s.next env id happening).Sound id) := by
  cases happening with
  | write db =>
    have hnext : (s.next env id (.write db)).Sound id := ⟨hs.telescoped, hs.stored, h⟩
    exact ⟨⟨fun _ => trivial, fun _ => hnext.telescoped⟩, fun _ => hnext⟩
  | scan floor reachable =>
    obtain ⟨hdeltas, hstored⟩ := @outcome_message env id s floor reachable hs.distinct h
    have hsum : ((s.next env id (.scan floor reachable)).emitted.map BilledTokens.amounts).sum =
        s.seen.amounts + ((deltas (s.outcome env floor reachable).items id).map
          BilledTokens.amounts).sum := by
      rw [Tracked.next, map_append, sum_append, hs.telescoped]
    cases hobserved : s.observes env id floor reachable with
    | none =>
      simp only [hobserved, Option.filter_none, Option.map_none, Option.toList_none,
        Option.getD_none] at hdeltas hstored
      rw [hdeltas, map_nil, sum_nil, add_zero] at hsum
      have hnext : (s.next env id (.scan floor reachable)).Sound id := by
        refine ⟨?_, ?_, hs.distinct⟩
        · rw [Telescoped, hsum, Tracked.next, hobserved]
          rfl
        · rw [store, Tracked.next, hstored, hobserved]
          exact hs.stored
      refine ⟨⟨fun _ tokens htokens => ?_, fun _ => hnext.telescoped⟩, fun _ => hnext⟩
      rw [hobserved] at htokens
      cases htokens
    | some tokens =>
      have hseen : (s.next env id (.scan floor reachable)).seen = tokens := by
        rw [Tracked.next, hobserved]
        rfl
      have hmeets : s.Meets env id (.scan floor reachable) ↔ Telescopes s.seen tokens := by
        rw [Meets, hobserved]
        exact ⟨fun h => h tokens rfl, fun h _ htokens => by cases htokens; exact h⟩
      have hiff := @amounts_delta_iff s.seen _ tokens hs.stored
      rw [hobserved] at hdeltas hstored
      have htelescoped : (s.next env id (.scan floor reachable)).Telescoped ↔
          Telescopes s.seen tokens := by
        rw [← hiff, Telescoped, hsum, hseen, hdeltas]
        by_cases hgrows : grows (OpenCode.stored s.store id) tokens <;>
          simp [Option.filter, hgrows]
      refine ⟨htelescoped.trans hmeets.symm,
        fun h => ⟨htelescoped.mpr (hmeets.mp h), ?_, hs.distinct⟩⟩
      have heq := hiff.mpr (hmeets.mp h)
      rw [hseen, store, Tracked.next, hstored]
      by_cases hgrows : grows (OpenCode.stored s.store id) tokens
      · simp [Option.filter, hgrows]
      · rw [if_neg hgrows, add_zero] at heq
        simp [Option.filter, hgrows, hs.stored, heq]

/-- **The deltas of a message telescope** in every state up to an end exactly if each scan up to
it observes counters that telescope. -/
theorem telescoped_iff {happenings : List Happening}
    (h : ∀ front happening, front ++ [happening] <+: happenings →
      (after env id front).Within env happening) :
    (∀ front, front <+: happenings → (after env id front).Telescoped) ↔
      ∀ front happening, front ++ [happening] <+: happenings →
        (after env id front).Meets env id happening := by
  have hafter : ∀ front happening, after env id (front ++ [happening]) =
      (after env id front).next env id happening := by
    intro front happening
    rw [after, foldl_append]
    rfl
  have hsound : (∀ front happening, front ++ [happening] <+: happenings →
      (after env id front).Sound id → (after env id front).Meets env id happening) →
      ∀ front, front <+: happenings → (after env id front).Sound id := by
    intro hmeets front
    induction front using List.reverseRecOn with
    | nil => exact fun _ => ⟨rfl, rfl, nodup_nil⟩
    | append_singleton front happening ih =>
      intro hfront
      have hs := ih ((prefix_append _ _).trans hfront)
      rw [hafter]
      exact (hs.next (h front happening hfront)).2 (hmeets front happening hfront hs)
  constructor
  · intro htelescoped
    have hmeets : ∀ front happening, front ++ [happening] <+: happenings →
        (after env id front).Sound id → (after env id front).Meets env id happening :=
      fun front happening hfront hs => (hs.next (h front happening hfront)).1.mp
        (hafter front happening ▸ htelescoped _ hfront)
    exact fun front happening hfront => hmeets front happening hfront
      (hsound hmeets front ((prefix_append _ _).trans hfront))
  · intro hmeets front hfront
    exact (hsound (fun front happening hfront _ => hmeets front happening hfront) front
      hfront).telescoped

end Tracked

namespace Sample

def counters : String → List (String × Json)
  | "a" => [("input", .int 5)]
  | "b" => [("output", .int 8)]
  | _ => [("input", .int 5), ("output", .int 8)]

def countersEnv : StoreEnv :=
  { Sample.env with
    loads := fun text =>
      .ok (.obj [("time", .obj [("completed", .int 2)]), ("tokens", .obj (counters text))])
    isAssistant := fun _ => true }

def written (data : String) : Happening :=
  .write { db "a" with messages := [⟨"m", "a", 2, data⟩], parts := [] }

end Sample

open Tracked Sample in
theorem telescoped_iff_sample : (∀ front, front <+: [written "a", .scan 0 true] →
      (after countersEnv "m" front).Telescoped) ↔
      ∀ front happening, front ++ [happening] <+: [written "a", .scan 0 true] →
        (after countersEnv "m" front).Meets countersEnv "m" happening := by
  refine telescoped_iff fun front happening h => ?_
  obtain ⟨rest, heq⟩ := h
  match front, heq with
  | [], heq =>
    cases heq
    exact nodup_singleton _
  | [_], heq =>
    cases heq
    have hcount : (countMessages (after countersEnv "m" [written "a"]).store
        ((after countersEnv "m" [written "a"]).outcome countersEnv 0 true).items).length = 1 := by
      decide +kernel
    exact hcount.trans_le (by decide)
  | _ :: _ :: _, heq => simp at heq

open Tracked Sample in
/-- The input is 5, absent and 5 again: it is emitted twice. -/
theorem absent_counter_emitted_twice :
    let s := after countersEnv "m" [written "a", .scan 0 true, written "b", .scan 0 true,
      written "c", .scan 0 true]
    s.emitted.map BilledTokens.amounts = [(5, 0, 0, 0), (0, 8, 0, 0), (5, 0, 0, 0)] ∧
      s.seen.amounts = (5, 8, 0, 0) ∧ s.store.length = 1 ∧ ¬ s.Telescoped := by
  intro s
  have hemitted : s.emitted.map BilledTokens.amounts =
      [(5, 0, 0, 0), (0, 8, 0, 0), (5, 0, 0, 0)] := by decide +kernel
  have hseen : s.seen.amounts = (5, 8, 0, 0) := by decide +kernel
  refine ⟨hemitted, hseen, by decide +kernel, ?_⟩
  rw [Telescoped, hemitted, hseen]
  decide

end StudioOS.LocalUsage.OpenCode

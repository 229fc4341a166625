import StudioOS.Library.Emitting
import StudioOS.LocalUsage.Scanner
import StudioOS.LocalUsage.Transcript

/-!
# Readers — Claude Code and Codex transcripts

`claude_code.py` and `codex.py`: one JSON document a line. A line moves what
the reader keeps (the ring of counted messages, the current model and so on)
and emits into the sink of the scanner; when it raises, what was emitted stays
in the sink and nothing is returned.
-/

namespace StudioOS.LocalUsage

open List Emitting

/-- A reader of a line-based transcript: `readLine` is one turn of the loop of `read`. -/
structure LineReader (σ : Type) extends Collector where
  /-- What is kept before the first read. -/
  initial : σ
  harnessVersion : σ → Option String
  readLine : σ → String → List Emission × Option σ
  raises : String → Prop
  raises_iff : ∀ kept line, (readLine kept line).2 = none ↔ raises line
  nonneg : ∀ kept line, ∀ emission ∈ (readLine kept line).1, emission.Nonneg

/-- The stored state of a line reader. -/
structure ReaderState (σ : Type) where
  offset : Nat
  kept : σ
deriving DecidableEq

/-- `read`: what is emitted, and the new state unless a line raised. -/
def LineReader.read {σ : Type} (reader : LineReader σ) (decode : Bytes → String)
    (content : Option Bytes) (state : Option (ReaderState σ)) :
    List Emission × Option (ReaderState σ) :=
  let appended := readAppendedLines decode content (state.elim 0 ReaderState.offset)
  match feed reader.readLine (state.elim reader.initial ReaderState.kept) appended.2 with
  | (emitted, none) => (emitted, none)
  | (emitted, some kept) => (emitted, some { offset := appended.1, kept })

/-- A claim that was found, or the exception of looking for it. -/
def offer : Except Raised (Option TaskClaim) → List Emission × Option Unit
  | .error _ => ([], none)
  | .ok claim => (claim.toList.map .claim, some ())

theorem offer_nonneg {claim} : ∀ emission ∈ (offer claim).1, emission.Nonneg := by
  rcases claim with raised | (_ | claim) <;> simp [offer, Emission.Nonneg]

/-! ## Claude Code -/

structure ClaudeKept where
  recent : List String
  harnessVersion : Option Tag
deriving DecidableEq

/-- `"studio_" in name`. -/
def isStudioTool (name : String) : Bool := Text.contains "studio_".toList name.toList

/-- One block of `message.content`. -/
def claudeBlock (env : Env) (ts : Timestamp) (_ : Unit) (block : Json) :
    List Emission × Option Unit :=
  match block.dict? with
  | none => ([], some ())
  | some block =>
    if (block.get "type").str? ≠ some "tool_use" then ([], some ())
    else
      match (block.get "name").str? with
      | none => ([], some ())
      | some name =>
        if isStudioTool name then
          offer (claimFromArguments env ts (block.get "input"))
        else ([], some ())

/-- `usage` of a message, once per message id. -/
def claudeUsage (ts : Timestamp) (doc message : Dict) (kept : ClaudeKept) :
    List Emission × ClaudeKept :=
  match (message.get "usage").dict? with
  | none => ([], kept)
  | some usage =>
    let remembered := remember kept.recent (message.get "id").str?
    if remembered.2 then
      let kept := { kept with recent := remembered.1 }
      let tokens : BilledTokens :=
        { input := safeCounter (usage.get "input_tokens")
          output := safeCounter (usage.get "output_tokens")
          cacheRead := safeCounter (usage.get "cache_read_input_tokens")
          cacheWrite := safeCounter (usage.get "cache_creation_input_tokens") }
      if tokens.total.isNone then ([], kept)
      else
        ([.usage
            { ts, model := safeModel (message.get "model"), provider := none, tokens
              cwd := (doc.get "cwd").str? }], kept)
    else ([], kept)

/-- One turn of the loop of `ClaudeCodeLocalReader.read`. -/
def claudeLine (env : Env) (kept : ClaudeKept) (line : String) :
    List Emission × Option ClaudeKept :=
  match loadJsonLine env line with
  | .error _ => ([], none)
  | .ok none => ([], some kept)
  | .ok (some doc) =>
    if (doc.get "type").str? ≠ some "assistant" then ([], some kept)
    else
      let kept :=
        { kept with harnessVersion := (safeTag (doc.get "version")).or kept.harnessVersion }
      match parseTimestamp env (doc.get "timestamp") with
      | .error _ => ([], none)
      | .ok none => ([], some kept)
      | .ok (some ts) =>
        match (doc.get "message").dict? with
        | none => ([], some kept)
        | some message =>
          match feed (claudeBlock env ts) () (message.get "content").items with
          | (claims, none) => (claims, none)
          | (claims, some _) =>
            let used := claudeUsage ts doc message kept
            (claims ++ used.1, some used.2)

/-- A block whose arguments are JSON nested too deep. -/
def claudeBlockRaises (env : Env) (ts : Timestamp) (block : Json) : Prop :=
  ∃ fields name, block.dict? = some fields ∧ (fields.get "type").str? = some "tool_use" ∧
    (fields.get "name").str? = some name ∧ isStudioTool name = true ∧
    ∃ raised, claimFromArguments env ts (fields.get "input") = .error raised

/-- The lines that end `ClaudeCodeLocalReader.read`. -/
def claudeRaises (env : Env) (line : String) : Prop :=
  match loadJsonLine env line with
  | .error _ => True
  | .ok none => False
  | .ok (some doc) =>
    (doc.get "type").str? = some "assistant" ∧
      match parseTimestamp env (doc.get "timestamp") with
      | .error _ => True
      | .ok none => False
      | .ok (some ts) =>
        ∃ message, (doc.get "message").dict? = some message ∧
          ∃ block ∈ (message.get "content").items, claudeBlockRaises env ts block

theorem offer_eq_none_iff {claim} : (offer claim).2 = none ↔ ∃ raised, claim = .error raised := by
  cases claim <;> simp [offer]

theorem claudeBlock_raises_iff (env) (ts) (u block) :
    (claudeBlock env ts u block).2 = none ↔ claudeBlockRaises env ts block := by
  unfold claudeBlock claudeBlockRaises
  cases block.dict? with
  | none => simp
  | some fields =>
    by_cases htype : (fields.get "type").str? = some "tool_use"
    · cases hname : (fields.get "name").str? with
      | none => simp [hname]
      | some name =>
        by_cases hstudio : isStudioTool name = true
        · simp [htype, hname, hstudio, offer_eq_none_iff]
        · simp [htype, hname, hstudio]
    · simp [htype]

theorem claudeLine_raises_iff (env) (kept) (line) :
    (claudeLine env kept line).2 = none ↔ claudeRaises env line := by
  unfold claudeLine claudeRaises
  rcases loadJsonLine env line with raised | doc
  · simp
  cases doc with
  | none => simp
  | some doc =>
    by_cases htype : (doc.get "type").str? = some "assistant"
    · rcases hts : parseTimestamp env (doc.get "timestamp") with raised | (_ | ts)
      · simp [htype, hts]
      · simp [htype, hts]
      cases hmessage : (doc.get "message").dict? with
      | none => simp [htype, hts, hmessage]
      | some message =>
        have hblocks := feed_eq_none_iff (s := ()) (claudeBlock_raises_iff env ts)
          (message.get "content").items
        rcases hfeed : feed (claudeBlock env ts) () (message.get "content").items
          with ⟨claims, _ | _⟩ <;> rw [hfeed] at hblocks <;>
          simp [htype, hts, hmessage, hfeed, ← hblocks]
    · simp [htype]

theorem claudeBlock_nonneg (env) (ts) (u block) :
    ∀ emission ∈ (claudeBlock env ts u block).1, emission.Nonneg := by
  unfold claudeBlock
  split
  · simp
  split
  · simp
  split
  · simp
  split
  · exact offer_nonneg
  · simp

theorem claudeUsage_nonneg (ts) (doc message) (kept) :
    ∀ emission ∈ (claudeUsage ts doc message kept).1, emission.Nonneg := by
  unfold claudeUsage
  split
  · simp
  dsimp only
  split
  · split
    · simp
    · simp [Emission.Nonneg, BilledTokens.Nonneg, safeCounter_nonneg]
  · simp

theorem claudeLine_nonneg (env) (kept) (line) :
    ∀ emission ∈ (claudeLine env kept line).1, emission.Nonneg := by
  unfold claudeLine
  split
  · simp
  · simp
  split
  · simp
  dsimp only
  split
  · simp
  · simp
  split
  · simp
  rename_i _ ts _ _ message _
  have hclaims := feed_forall (s := ()) (claudeBlock_nonneg env ts) (message.get "content").items
  split
  · rename_i claims hfeed
    rw [hfeed] at hclaims
    exact hclaims
  rename_i claims _ hfeed
  rw [hfeed] at hclaims
  intro emission hemission
  rcases mem_append.mp hemission with hmem | hmem
  · exact hclaims emission hmem
  · exact claudeUsage_nonneg _ _ _ _ emission hmem

/-- `ClaudeCodeLocalReader`. -/
def claudeCode (env : Env) : LineReader ClaudeKept where
  collectorId := "studio-local-claude-code"
  collectorVersion := "1.0.0"
  harness := "claude-code"
  initial := { recent := [], harnessVersion := none }
  harnessVersion kept := kept.harnessVersion.map Subtype.val
  readLine := claudeLine env
  raises := claudeRaises env
  raises_iff := claudeLine_raises_iff env
  nonneg := claudeLine_nonneg env

/-! ## The forms of a message -/

section Forms

variable {env : Env} {id line : String} {kept : ClaudeKept} {lines : List String}

def claudeTokens (usage : Dict) : BilledTokens :=
  { input := safeCounter (usage.get "input_tokens")
    output := safeCounter (usage.get "output_tokens")
    cacheRead := safeCounter (usage.get "cache_read_input_tokens")
    cacheWrite := safeCounter (usage.get "cache_creation_input_tokens") }

/-- The counters of a line that is a form of the message. -/
def claudeForm (env : Env) (id line : String) : Option BilledTokens :=
  match loadJsonLine env line with
  | .ok (some doc) =>
    match parseTimestamp env (doc.get "timestamp"), (doc.get "message").dict? with
    | .ok (some _), some message =>
      match (message.get "usage").dict? with
      | some usage =>
        if (doc.get "type").str? = some "assistant" ∧ (message.get "id").str? = some id then
          some (claudeTokens usage)
        else none
      | none => none
    | _, _ => none
  | _ => none

/-- One line, and what it adds to the usage of the message. -/
def claudeOwn (env : Env) (id : String) (kept : ClaudeKept) (line : String) :
    List BilledTokens × Option ClaudeKept :=
  let read := claudeLine env kept line
  (if (claudeForm env id line).isSome then (usages read.1).map UsageEvent.tokens else [], read.2)

/-- What scans count for the message, which read the transcript piece by piece. -/
def accumulated (env : Env) (id : String) (kept : ClaudeKept) (pieces : List (List String)) :
    BilledTokens :=
  (feed (feed (claudeOwn env id)) kept pieces).1.foldl BilledTokens.add BilledTokens.none

/-- Where the message is repeated, its id is in the ring. -/
def Ringed (env : Env) (id : String) (kept : ClaudeKept) (lines : List String) : Prop :=
  ∀ before line after, lines = before ++ line :: after → (claudeForm env id line).isSome →
    (∃ earlier ∈ before, (claudeForm env id earlier).isSome) →
      ∃ kept', (feed (claudeLine env) kept before).2 = some kept' ∧ id ∈ kept'.recent

theorem usages_claims (env) (ts blocks) : usages (feed (claudeBlock env ts) () blocks).1 = [] := by
  rw [usages, filterMap_eq_nil_iff]
  refine feed_forall (fun _ block emission hemission => ?_) blocks
  have hoffer : ∀ claim, emission ∈ (offer claim).1 → emission.usage? = none := by
    rintro (raised | _ | claim) hmem
    · cases hmem
    · cases hmem
    · rw [mem_singleton.mp hmem]
      rfl
  unfold claudeBlock at hemission
  split at hemission
  · cases hemission
  split at hemission
  · cases hemission
  split at hemission
  · cases hemission
  split at hemission
  · exact hoffer _ hemission
  · cases hemission

theorem claudeUsage_eq {ts doc message usage} (hid : id ≠ "")
    (husage : (message.get "usage").dict? = some usage)
    (hmessage : (message.get "id").str? = some id) :
    (usages (claudeUsage ts doc message kept).1).map UsageEvent.tokens =
      if id ∈ kept.recent ∨ (claudeTokens usage).total.isNone then []
      else [claudeTokens usage] := by
  unfold claudeUsage
  rw [husage, hmessage]
  by_cases hold : id ∈ kept.recent
  · simp [remember, hid, hold, usages]
  by_cases hnone : (claudeTokens usage).total = none
  · have := hnone
    rw [claudeTokens] at this
    simp [remember, hid, hold, hnone, this, usages]
  · have := hnone
    rw [claudeTokens] at this
    simp [remember, hid, hold, this, usages, Emission.usage?, claudeTokens]

theorem claudeLine_form {tokens} (hid : id ≠ "") (hraises : ¬ claudeRaises env line)
    (hform : claudeForm env id line = some tokens) :
    (usages (claudeLine env kept line).1).map UsageEvent.tokens =
      if id ∈ kept.recent ∨ tokens.total.isNone then [] else [tokens] := by
  rw [← claudeLine_raises_iff env kept] at hraises
  unfold claudeForm at hform
  unfold claudeLine at hraises ⊢
  split at hform
  · rename_i doc hdoc
    split at hform
    · rename_i _ _ ts message hts hmessage
      split at hform
      · rename_i usage husage
        split at hform
        · rename_i hkinds
          cases hform
          simp only [hdoc, hkinds.1, hts, hmessage, ne_eq, not_true, if_false] at hraises ⊢
          have hclaims := usages_claims env ts (message.get "content").items
          rcases hfeed : feed (claudeBlock env ts) () (message.get "content").items with
            ⟨claims, _ | _⟩
          · simp [hfeed] at hraises
          · rw [hfeed] at hclaims
            simp only [usages_append, hclaims, nil_append]
            exact claudeUsage_eq hid husage hkinds.2
        · cases hform
      · cases hform
    · cases hform
  · cases hform

theorem not_mem_remember {recent item} (hnew : id ∉ recent)
    (hother : item ≠ some id) : id ∉ (remember recent item).1 := by
  cases item with
  | none => exact hnew
  | some other =>
    unfold remember
    dsimp only
    split
    · exact hnew
    split
    · exact hnew
    dsimp only
    intro hmem
    have hin : id ∈ recent ++ [other] := mem_of_mem_drop hmem
    rcases mem_append.mp hin with hmem | hmem
    · exact hnew hmem
    · exact hother (by rw [mem_singleton.mp hmem])

theorem claudeLine_recent {kept'} (hnew : id ∉ kept.recent) (hform : claudeForm env id line = none)
    (hkept : (claudeLine env kept line).2 = some kept') :
    id ∉ kept'.recent := by
  unfold claudeForm at hform
  unfold claudeLine at hkept
  split at hkept
  · cases hkept
  · cases hkept
    exact hnew
  rename_i doc hdoc
  rw [hdoc] at hform
  dsimp only at hform hkept
  split at hkept
  · cases hkept
    exact hnew
  rename_i htype
  split at hkept
  · cases hkept
  · cases hkept
    exact hnew
  rename_i ts hts
  rw [hts] at hform
  split at hkept
  · cases hkept
    exact hnew
  rename_i message hmessage
  rw [hmessage] at hform
  dsimp only at hform
  split at hkept
  · cases hkept
  cases hkept
  unfold claudeUsage
  split at hform
  · rename_i usage husage
    rw [husage]
    have hother : (message.get "id").str? ≠ some id := by
      intro heq
      simp [heq, not_not.mp htype] at hform
    have hnot := not_mem_remember hnew hother
    dsimp only
    split
    · split <;> exact hnot
    · exact hnew
  · rename_i husage
    rw [husage]
    exact hnew

theorem claudeOwn_next (id) (kept) (hraises : ¬ claudeRaises env line) :
    ∃ kept', claudeLine env kept line = ((claudeLine env kept line).1, some kept') ∧
      claudeOwn env id kept line = ((claudeOwn env id kept line).1, some kept') := by
  rw [← claudeLine_raises_iff env kept] at hraises
  obtain ⟨kept', hkept⟩ := Option.ne_none_iff_exists'.mp hraises
  exact ⟨kept', Prod.ext rfl hkept, Prod.ext rfl hkept⟩

theorem feed_repeated (hid : id ≠ "") (hraises : ∀ line ∈ lines, ¬ claudeRaises env line)
    (hring : ∀ before line after, lines = before ++ line :: after →
      (claudeForm env id line).isSome →
        ∃ kept', (feed (claudeLine env) kept before).2 = some kept' ∧ id ∈ kept'.recent) :
    (feed (claudeOwn env id) kept lines).1 = [] := by
  induction lines generalizing kept with
  | nil => rfl
  | cons line rest ih =>
    obtain ⟨kept', hkept, hnext⟩ := claudeOwn_next id kept (hraises line (by simp))
    have hown : (claudeOwn env id kept line).1 = [] := by
      cases hform : claudeForm env id line with
      | none => simp [claudeOwn, hform]
      | some tokens =>
        obtain ⟨_, heq, hmem⟩ := hring [] line rest rfl (by simp [hform])
        cases heq
        simp [claudeOwn, hform, claudeLine_form hid (hraises line (by simp)) hform, hmem]
    have hrest := @ih kept' (fun line hline => hraises line (by simp [hline]))
      fun before later after heq hform => by
        obtain ⟨kept'', hfed, hmem⟩ := hring (line :: before) later after (by simp [heq]) hform
        rw [feed_cons_of_some hkept] at hfed
        exact ⟨kept'', hfed, hmem⟩
    rw [feed_cons_of_some hnext, hown, hrest]
    rfl

theorem feed_first {tokens} (hid : id ≠ "") (hnew : id ∉ kept.recent)
    (hraises : ∀ line ∈ lines, ¬ claudeRaises env line) (hring : Ringed env id kept lines) {others}
    (hforms : lines.filterMap (claudeForm env id) = tokens :: others) :
    (feed (claudeOwn env id) kept lines).1 = if tokens.total.isNone then [] else [tokens] := by
  induction lines generalizing kept with
  | nil => cases hforms
  | cons line rest ih =>
    obtain ⟨kept', hkept, hnext⟩ := claudeOwn_next id kept (hraises line (by simp))
    have hrest : ∀ line ∈ rest, ¬ claudeRaises env line :=
      fun line hline => hraises line (by simp [hline])
    have hafter : ∀ before later after, rest = before ++ later :: after →
        (claudeForm env id later).isSome →
          (∃ earlier ∈ line :: before, (claudeForm env id earlier).isSome) →
            ∃ kept'', (feed (claudeLine env) kept' before).2 = some kept'' ∧
              id ∈ kept''.recent := by
      intro before later after heq hform hearlier
      obtain ⟨kept'', hfed, hmem⟩ :=
        hring (line :: before) later after (by simp [heq]) hform hearlier
      rw [feed_cons_of_some hkept] at hfed
      exact ⟨kept'', hfed, hmem⟩
    rw [feed_cons_of_some hnext]
    cases hform : claudeForm env id line with
    | none =>
      rw [filterMap_cons_none hform] at hforms
      have hown : (claudeOwn env id kept line).1 = [] := by simp [claudeOwn, hform]
      rw [hown, nil_append]
      refine ih (claudeLine_recent hnew hform (congrArg Prod.snd hkept)) hrest ?_ hforms
      rintro before later after heq hlater ⟨earlier, hmem, hearlier⟩
      exact hafter before later after heq hlater ⟨earlier, .tail _ hmem, hearlier⟩
    | some first =>
      rw [filterMap_cons_some hform, List.cons.injEq] at hforms
      obtain rfl := hforms.1
      have hown : (claudeOwn env id kept line).1 = if first.total.isNone then [] else [first] := by
        simp [claudeOwn, hform, claudeLine_form hid (hraises line (by simp)) hform, hnew]
      rw [hown, feed_repeated hid hrest, append_nil]
      intro before later after heq hlater
      exact hafter before later after heq hlater ⟨line, mem_cons_self, by simp [hform]⟩

/-- What scans count for a message is its first form, and so the last one if
and only if both have the same counters. -/
theorem message_counted {pieces : List (List String)} {first : BilledTokens}
    {others : List BilledTokens} (hid : id ≠ "") (hnew : id ∉ kept.recent)
    (hraises : ∀ line ∈ pieces.flatten, ¬ claudeRaises env line)
    (hring : Ringed env id kept pieces.flatten)
    (hforms : pieces.flatten.filterMap (claudeForm env id) = first :: others) :
    accumulated env id kept pieces = first ∧
      (accumulated env id kept pieces = (first :: others).getLast (cons_ne_nil _ _) ↔
        first = (first :: others).getLast (cons_ne_nil _ _)) := by
  have hfirst : accumulated env id kept pieces = first := by
    rw [accumulated, feed_feed, feed_first hid hnew hraises hring hforms]
    obtain ⟨input, output, cacheRead, cacheWrite⟩ := first
    cases input <;> cases output <;> cases cacheRead <;> cases cacheWrite <;>
      simp [BilledTokens.total, BilledTokens.add, BilledTokens.none, addOpt]
  exact ⟨hfirst, by rw [hfirst]⟩

end Forms

namespace Repeated

/-- A form of the message `m` that has so many output tokens. -/
def form (count : String) : String :=
  "\x7b\"type\":\"assistant\",\"timestamp\":1,\"message\":" ++
    "\x7b\"id\":\"m\",\"usage\":\x7b\"output_tokens\":" ++ count ++ "\x7d\x7d\x7d"

def parsed (count : Int) : Json :=
  .obj [("type", .str "assistant"), ("timestamp", .int 1),
    ("message", .obj [("id", .str "m"), ("usage", .obj [("output_tokens", .int count)])])]

def env : Env where
  decode bytes := String.ofList (bytes.map fun byte => Char.ofNat byte.toNat)
  loads text :=
    if text = form "1" then .ok (parsed 1)
    else if text = form "5" then .ok (parsed 5)
    else .error .valueError
  uuid _ := none
  fromisoformat _ := none
  millis _ := none
  fromtimestamp _ := none
  fromtimestampInt n := if n = 1 then some 62135596801000000 else none

def kept : ClaudeKept := { recent := [], harnessVersion := none }

def tokens (count : Int) : BilledTokens :=
  { input := none, output := some count, cacheRead := none, cacheWrite := none }

theorem forms : ([[form "1"], [form "5"]].flatten.filterMap (claudeForm env "m")) =
    [tokens 1, tokens 5] := by decide +kernel

theorem ringed : Ringed env "m" kept [[form "1"], [form "5"]].flatten := by
  intro before line after heq _ hearlier
  have hfed : (feed (claudeLine env) kept [form "1"]).2 =
      some { recent := ["m"], harnessVersion := none } := by decide +kernel
  rcases before with _ | ⟨first, before⟩
  · obtain ⟨earlier, hmem, -⟩ := hearlier
    cases hmem
  simp only [flatten_cons, flatten_nil, append_nil, cons_append, nil_append, List.cons.injEq] at heq
  obtain ⟨rfl, hrest⟩ := heq
  have hnil : before = [] := by
    have := congrArg List.length hrest
    simp only [length_cons, length_nil, length_append] at this
    exact eq_nil_of_length_eq_zero (by omega)
  exact ⟨_, hnil ▸ hfed, by simp⟩

end Repeated

open Repeated in
theorem message_counted_repeated : accumulated env "m" kept [[form "1"], [form "5"]] = tokens 1 :=
  (message_counted (by decide) (by simp [kept]) (by
    intro line hline
    rw [← claudeLine_raises_iff env kept]
    rcases mem_cons.mp hline with rfl | hline
    · decide +kernel
    · rw [mem_singleton.mp hline]
      decide +kernel) ringed forms).1

open Repeated in
/-- A message of one output token, and then of five: one is counted. -/
theorem message_counted_first :
    [[form "1"], [form "5"]].flatten.filterMap (claudeForm env "m") = [tokens 1, tokens 5] ∧
      Ringed env "m" kept [[form "1"], [form "5"]].flatten ∧
      accumulated env "m" kept [[form "1"], [form "5"]] ≠ tokens 5 :=
  ⟨forms, ringed, by decide +kernel⟩

end StudioOS.LocalUsage

import SesameServer.Lib.History
import SesameServer.Selfhost.Tables
import SesameServer.Updates.Feed

/- Update checks (`internal/selfhost/updates/service.go`) over their tables
   (`sqlitestore/updates.go`, migration `0002_updates.sql`).

   1. The transactions. Each is rolled back if it fails.
   2. `Check` — where `runCheck` stands: it has read the settings and fetches, it is about to
      record a feed, or it is about to record a failure. Each part is a step of its own, so the
      settings it decided on may be old; `ResetUpdateSequences` runs in another process.
   3. `Next` — one step; any number of checks are under way.
   4. `Guarded` — the invariant, and `feed_moves_forward`. -/
namespace Sesame.Updates
open Outcome History
open Sesame.Selfhost (Err Actor AuditLog appendAudit SystemActor)

/-- `update_settings.enabled`. -/
inductive Choice where
  | unset | on | off
  deriving DecidableEq

def Choice.text : Choice → Bytes
  | .unset => utf8 "unset"
  | .on => utf8 "on"
  | .off => utf8 "off"

inductive Code where
  | unreachable | invalid | rollback | expired
  deriving DecidableEq

/-- `update_settings`; `none` is the empty `last_error`. -/
structure UpdateSettings where
  enabled : Choice
  channel : Bytes
  lastFeed : Bytes
  checkedAt : Option Int
  lastError : Option Code
  deriving DecidableEq

structure Db where
  settings : UpdateSettings
  /-- `update_sequences`. -/
  sequences : Table Bytes Int
  audit : AuditLog

/-- The tables as the migration leaves them. -/
def Db.init : Db := ⟨⟨.unset, utf8 "stable", [], none, none⟩, ∅, .empty⟩

abbrev Tx := EStateM Err Db

structure UpdateChange where
  enabled : Option Bool
  channel : Option Bytes
  deriving DecidableEq

structure UpdateFeed where
  raw : Bytes
  keyID : Bytes
  sequence : Int
  checkedAt : Int
  deriving DecidableEq

/-! Transactions. -/

section
variable (sha256 : Bytes → Bytes)

/-- `s.audit(…)` on `updatesTarget`. -/
def audit (now : Int) (by_ : Actor) (action : String) (detail : List (Bytes × Bytes)) : Tx Unit := do
  let db ← get
  let appended ← need (appendAudit sha256 db.audit
    ⟨by_, utf8 action, utf8 "instance", Json.StringMap.ofMembers detail⟩ now) .invalidInput
  set { db with audit := appended.2 }

def choiceOf (enabled : Bool) : Choice := if enabled then .on else .off

def validUpdateChannel (value : Bytes) : Bool :=
  !(value.isEmpty || value.length > 32) && value.head?.any Text.isLower &&
    value.all fun b => lowerOrDigit b || b == 45

def configureUpdates (now : Int) (by_ : Actor) (change : UpdateChange) : Tx UpdateSettings := do
  let db ← get
  refuse (change.channel.any (fun channel => !validUpdateChannel channel) = true) .invalidInput
  let choice := (change.enabled.map choiceOf).getD db.settings.enabled
  let channel := change.channel.getD db.settings.channel
  let detail := (if choice ≠ db.settings.enabled then [(utf8 "enabled", choice.text)] else []) ++
    if channel ≠ db.settings.channel then [(utf8 "channel", channel)] else []
  let settings := { db.settings with
    enabled := choice
    channel := channel }
  onlyIf (detail ≠ []) do
    set { db with settings := settings }
    audit sha256 now by_ "updates.updated" detail
  pure settings

def chooseUpdatesAtSetup (now : Int) (by_ : Actor) : Bool → Tx Unit :=
  Selfhost.chooseUpdatesAtSetup
    (fun enabled => modify fun db =>
      { db with settings := { db.settings with enabled := choiceOf enabled } })
    (audit sha256 now by_)

/-- The upsert changes no row if a larger sequence is recorded. -/
def recordUpdateFeed (feed : UpdateFeed) : Tx Unit := do
  refuse (feed.sequence < 1 ∨ feed.raw = [] ∨ feed.keyID = [] ∨ feed.keyID.length > 64) .invalidInput
  let db ← get
  refuse ((db.sequences.lookup feed.keyID).any (fun n => !decide (n ≤ feed.sequence)) = true) .conflict
  set { db with
    sequences := db.sequences.insert feed.keyID feed.sequence
    settings := { db.settings with
      lastFeed := feed.raw
      checkedAt := some (feed.checkedAt / second)
      lastError := none } }

/-- The largest recorded sequence, 0 if there is none. -/
def highest (sequences : Table Bytes Int) : Int := sequences.values.foldl max 0

def recordUpdateFailure (now : Int) (code : Code) : Tx Unit := do
  let db ← get
  set { db with settings := { db.settings with lastError := some code } }
  onlyIf (code = Code.rollback ∧ db.settings.lastError ≠ some code)
    (audit sha256 now SystemActor "updates.rollback_rejected"
      [(utf8 "highestSequence", Encoding.decimalInt (highest db.sequences))])

def resetUpdateSequences (now : Int) (by_ : Actor) : Tx Nat := do
  let db ← get
  let cleared := db.sequences.entries.length
  set { db with
    sequences := ∅
    settings := { db.settings with
      lastError := if db.settings.lastError = some Code.rollback then none else db.settings.lastError } }
  audit sha256 now by_ "updates.sequences_reset" [(utf8 "keys", Encoding.decimal cleared)]
  pure cleared

end

/-! Checks. -/

def codeOf : FeedError → Code
  | .expired => .expired
  | .rollback => .rollback
  | .invalid _ => .invalid
  | .unreachable => .unreachable

/-- What `runCheck` makes of what it fetched: the comparison is with the sequences it read. -/
def judge (v : Verifier) (sequences : Table Bytes Int) (now : Int) (fetched : Except FeedError Bytes) :
    Except FeedError (Bytes × Document) := do
  let body ← fetched
  let document ← v.verifyFeed body now
  check (document.payload.sequence < sequences.getD document.envelope.keyID 0) .rollback
  pure (body, document)

/-- Where a `runCheck` stands. `now` is the time it read. -/
inductive Check where
  | reading
  | fetching (now : Int) (sequences : Table Bytes Int)
  | recording (now : Int) (body : Bytes) (document : Document)
  | failing (now : Int) (code : Code)

def Document.feed (document : Document) (now : Int) : UpdateFeed :=
  ⟨document.raw, document.envelope.keyID, document.payload.sequence, now⟩

inductive Event where
  /-- A check recorded the feed it had fetched. -/
  | accepted (check : Nat) (now : Int) (body : Bytes) (document : Document)
  | failed (check : Nat) (code : Code)
  /-- A check gave up: it was cancelled, or a transaction failed. -/
  | dropped (check : Nat)
  | reset

structure System where
  db : Db
  checks : Table Nat Check
  started : Nat

def System.init : System := ⟨.init, ∅, 0⟩

/-- What an event makes of the sequences accepted under a key. -/
def Event.collect (key : Bytes) (got : List Int) : Event → List Int
  | .accepted _ _ _ document =>
    if document.envelope.keyID = key then got ++ [document.payload.sequence] else got
  | .reset => []
  | _ => got

/-- The sequences accepted under a key since the last reset. -/
def acceptedUnder (key : Bytes) (es : List Event) : List Int :=
  es.foldl (fun got e => e.collect key got) []

section
variable (v : Verifier) (sha256 : Bytes → Bytes)

inductive Next : System → List Event → System → Prop
  /-- `UpdateSettings` reads the settings and then, in a statement of its own, the sequences. -/
  | begin_ {s : System} (on : s.db.settings.enabled = .on) :
      Next s [] { s with
        checks := s.checks.insert s.started .reading
        started := s.started + 1 }
  | start {s : System} {n : Nat} (now : Int) (at_ : s.checks.lookup n = some .reading) :
      Next s [] { s with checks := s.checks.insert n (.fetching now s.db.sequences) }
  | verified {s : System} {n : Nat} {now : Int} {sequences : Table Bytes Int} {body : Bytes}
      {document : Document} (fetched : Except FeedError Bytes)
      (at_ : s.checks.lookup n = some (.fetching now sequences))
      (ok : judge v sequences now fetched = .ok (body, document)) :
      Next s [] { s with checks := s.checks.insert n (.recording now body document) }
  | rejected {s : System} {n : Nat} {now : Int} {sequences : Table Bytes Int} {e : FeedError}
      (fetched : Except FeedError Bytes) (at_ : s.checks.lookup n = some (.fetching now sequences))
      (bad : judge v sequences now fetched = .error e) :
      Next s [] { s with checks := s.checks.insert n (.failing now (codeOf e)) }
  | recorded {s : System} {n : Nat} {now : Int} {body : Bytes} {document : Document} {db : Db}
      (at_ : s.checks.lookup n = some (.recording now body document))
      (ok : recordUpdateFeed (document.feed now) s.db = .ok () db) :
      Next s [.accepted n now body document] { s with db := db, checks := s.checks.erase n }
  | overtaken {s : System} {n : Nat} {now : Int} {body : Bytes} {document : Document} {db : Db}
      (at_ : s.checks.lookup n = some (.recording now body document))
      (conflict : recordUpdateFeed (document.feed now) s.db = .error .conflict db) :
      Next s [] { s with checks := s.checks.insert n (.failing now .rollback) }
  | failed {s : System} {n : Nat} {now : Int} {code : Code} {db : Db} (clock : Int)
      (at_ : s.checks.lookup n = some (.failing now code))
      (ok : recordUpdateFailure sha256 clock code s.db = .ok () db) :
      Next s [.failed n code] { s with db := db, checks := s.checks.erase n }
  | dropped {s : System} (n : Nat) : Next s [.dropped n] { s with checks := s.checks.erase n }
  | configured {s : System} {settings : UpdateSettings} {db : Db} (clock : Int) (by_ : Actor)
      -- `Configure` asks first that the product has the channel
      (change : UpdateChange) (ok : configureUpdates sha256 clock by_ change s.db = .ok settings db) :
      Next s [] { s with db := db }
  | chosen {s : System} {db : Db} (clock : Int) (by_ : Actor) (enabled : Bool)
      (ok : chooseUpdatesAtSetup sha256 clock by_ enabled s.db = .ok () db) :
      Next s [] { s with db := db }
  | reset {s : System} {cleared : Nat} {db : Db} (clock : Int) (by_ : Actor)
      (ok : resetUpdateSequences sha256 clock by_ s.db = .ok cleared db) :
      Next s [.reset] { s with db := db }

def Run (es : List Event) (s : System) : Prop := Path (Next v sha256) (fun _ => True) .init es s

end

/-! The transactions, by what they leave. -/

variable {v : Verifier} {sha256 : Bytes → Bytes} {db db' : Db} {es shown : List Event} {s s' : System}

def Db.SameFeed (db db' : Db) : Prop :=
  db'.settings.lastFeed = db.settings.lastFeed ∧ db'.sequences = db.sequences

variable {now : Int} {by_ : Actor} {u : Unit} {body : Bytes} {document : Document}

theorem audit_ok {action : String} {detail : List (Bytes × Bytes)}
    (h : audit sha256 now by_ action detail db = .ok u db') : db.SameFeed db' := by
  simp only [audit, bind_ok, get_ok, need_ok, set_ok] at h
  obtain ⟨_, _, ⟨rfl, rfl⟩, _, _, ⟨-, rfl⟩, rfl⟩ := h
  exact ⟨rfl, rfl⟩

theorem configureUpdates_ok {change : UpdateChange} {settings : UpdateSettings}
    (h : configureUpdates sha256 now by_ change db = .ok settings db') : db.SameFeed db' := by
  simp only [configureUpdates, bind_ok, get_ok, refuse_ok, onlyIf_ok, set_ok, pure_ok] at h
  obtain ⟨_, _, ⟨rfl, rfl⟩, _, _, ⟨-, rfl⟩, _, _, ⟨-, _, _, rfl, haudit⟩ | ⟨-, rfl⟩, -, rfl⟩ := h
  · exact (audit_ok haudit).imp id id
  · exact ⟨rfl, rfl⟩

theorem chooseUpdatesAtSetup_ok {enabled : Bool}
    (h : chooseUpdatesAtSetup sha256 now by_ enabled db = .ok u db') : db.SameFeed db' := by
  simp only [chooseUpdatesAtSetup, Selfhost.chooseUpdatesAtSetup, bind_ok, modify_ok] at h
  obtain ⟨_, _, rfl, haudit⟩ := h
  exact (audit_ok haudit).imp id id

theorem recordUpdateFailure_ok {code : Code}
    (h : recordUpdateFailure sha256 now code db = .ok u db') : db.SameFeed db' := by
  simp only [recordUpdateFailure, bind_ok, get_ok, set_ok, onlyIf_ok] at h
  obtain ⟨_, _, ⟨rfl, rfl⟩, _, _, rfl, ⟨-, haudit⟩ | ⟨-, rfl⟩⟩ := h
  · exact (audit_ok haudit).imp id id
  · exact ⟨rfl, rfl⟩

theorem resetUpdateSequences_ok {cleared : Nat}
    (h : resetUpdateSequences sha256 now by_ db = .ok cleared db') :
    db'.settings.lastFeed = db.settings.lastFeed ∧ db'.sequences = ∅ := by
  simp only [resetUpdateSequences, bind_ok, get_ok, set_ok, pure_ok] at h
  obtain ⟨_, _, ⟨rfl, rfl⟩, _, _, rfl, _, _, haudit, -, rfl⟩ := h
  exact (audit_ok haudit).imp id id

theorem recordUpdateFeed_ok {feed : UpdateFeed} (h : recordUpdateFeed feed db = .ok u db') :
    (∀ n, db.sequences.lookup feed.keyID = some n → n ≤ feed.sequence) ∧
    db'.sequences = db.sequences.insert feed.keyID feed.sequence ∧ db'.settings.lastFeed = feed.raw := by
  simp only [recordUpdateFeed, bind_ok, refuse_ok, get_ok, set_ok] at h
  obtain ⟨_, _, ⟨-, rfl⟩, _, _, ⟨rfl, rfl⟩, _, _, ⟨hfits, rfl⟩, rfl⟩ := h
  refine ⟨fun n hn => ?_, rfl, rfl⟩
  simpa [hn] using hfits

/-! What a step does. -/

/-- The event moves neither the feed nor the sequences. -/
def Event.quiet : Event → Bool
  | .accepted _ _ _ _ => false
  | .reset => false
  | _ => true

inductive Effect (db : Db) (shown : List Event) (db' : Db) : Prop
  | kept (quiet : ∀ e ∈ shown, e.quiet = true) (same : db.SameFeed db')
  | accepted (n : Nat) (now : Int) (body : Bytes) (document : Document)
      (eq : shown = [.accepted n now body document])
      (forward : ∀ m, db.sequences.lookup document.envelope.keyID = some m →
        m ≤ document.payload.sequence)
      (sequences : db'.sequences =
        db.sequences.insert document.envelope.keyID document.payload.sequence)
      (feed : db'.settings.lastFeed = document.raw)
  | reset (eq : shown = [.reset]) (feed : db'.settings.lastFeed = db.settings.lastFeed)
      (sequences : db'.sequences = ∅)

theorem Next.effect (next : Next v sha256 s shown s') : Effect s.db shown s'.db := by
  cases next with
  | begin_ | start | verified | rejected | overtaken => exact .kept (by simp) ⟨rfl, rfl⟩
  | dropped => exact .kept (by simp [Event.quiet]) ⟨rfl, rfl⟩
  | failed clock at_ ok => exact .kept (by simp [Event.quiet]) (recordUpdateFailure_ok ok)
  | configured clock by_ change ok => exact .kept (by simp) (configureUpdates_ok ok)
  | chosen clock by_ enabled ok => exact .kept (by simp) (chooseUpdatesAtSetup_ok ok)
  | @recorded n now body document _ at_ ok =>
    obtain ⟨forward, sequences, feed⟩ := recordUpdateFeed_ok ok
    exact .accepted n now body document rfl forward sequences feed
  | reset clock by_ ok =>
    obtain ⟨feed, sequences⟩ := resetUpdateSequences_ok ok
    exact .reset rfl feed sequences

/-! The invariant. -/

structure Guarded (v : Verifier) (es : List Event) (s : System) : Prop where
  sequences : ∀ key, s.db.sequences.lookup key = (acceptedUnder key es).max?
  feed : s.db.settings.lastFeed = [] ∨ ∃ n now body document,
    .accepted n now body document ∈ es ∧ document.raw = s.db.settings.lastFeed
  accepted : ∀ n now body document, .accepted n now body document ∈ es →
    v.verifyFeed body now = .ok document
  recording : ∀ n now body document, s.checks.lookup n = some (.recording now body document) →
    v.verifyFeed body now = .ok document

theorem Guarded.init : Guarded v [] .init where
  sequences _ := rfl
  feed := .inl rfl
  accepted _ _ _ _ h := by cases h
  recording _ _ _ _ h := by cases h

theorem acceptedUnder_quiet {key : Bytes} (quiet : ∀ e ∈ shown, e.quiet = true) :
    acceptedUnder key (es ++ shown) = acceptedUnder key es := by
  unfold acceptedUnder
  rw [List.foldl_append]
  generalize es.foldl _ [] = got
  induction shown generalizing got with
  | nil => rfl
  | cons e shown ih =>
    have hgot : e.collect key got = got := by
      have he := quiet e List.mem_cons_self
      cases e <;> simp_all [Event.quiet, Event.collect]
    rw [List.foldl_cons, hgot]
    exact ih (fun e h => quiet e (List.mem_cons_of_mem _ h)) got

theorem acceptedUnder_snoc {key : Bytes} {e : Event} :
    acceptedUnder key (es ++ [e]) = e.collect key (acceptedUnder key es) := by
  simp [acceptedUnder]

theorem max?_snoc {l : List Int} {n : Int} (h : ∀ m, l.max? = some m → m ≤ n) :
    (l ++ [n]).max? = some n := by
  refine List.max?_eq_some_iff.mpr ⟨by simp, fun m hm => ?_⟩
  rcases List.mem_append.mp hm with hm | hm
  · cases hmax : l.max? with
    | none => simp [List.max?_eq_none_iff.mp hmax] at hm
    | some top => exact Int.le_trans ((List.max?_eq_some_iff.mp hmax).2 m hm) (h top hmax)
  · exact Int.le_of_eq (List.mem_singleton.mp hm)

theorem judge_ok {sequences : Table Bytes Int} {fetched : Except FeedError Bytes}
    (h : judge v sequences now fetched = .ok (body, document)) :
    v.verifyFeed body now = .ok document := by
  simp only [judge, except_bind_ok] at h
  obtain ⟨_, -, _, hverify, _, -, h⟩ := h
  cases h
  exact hverify

section
variable (guarded : Guarded v es s) (next : Next v sha256 s shown s')
include guarded next

theorem Guarded.next_sequences (key : Bytes) :
    s'.db.sequences.lookup key = (acceptedUnder key (es ++ shown)).max? := by
  cases next.effect with
  | kept quiet same => rw [same.2, acceptedUnder_quiet quiet, guarded.sequences key]
  | reset eq feed sequences =>
    rw [sequences, eq, acceptedUnder_snoc]
    rfl
  | accepted n now body document eq forward sequences feed =>
    rw [sequences, eq, acceptedUnder_snoc, Table.lookup_insert_eq]
    dsimp only [Event.collect]
    split
    · next heq =>
      rw [if_pos heq.symm, max?_snoc]
      intro m hm
      exact forward m (by rw [← heq, guarded.sequences key, hm])
    · next hne => rw [if_neg (Ne.symm hne), guarded.sequences key]

theorem Guarded.next_feed : s'.db.settings.lastFeed = [] ∨ ∃ n now body document,
      .accepted n now body document ∈ es ++ shown ∧ document.raw = s'.db.settings.lastFeed := by
  have hold : s'.db.settings.lastFeed = s.db.settings.lastFeed →
      s'.db.settings.lastFeed = [] ∨ ∃ n now body document,
        .accepted n now body document ∈ es ++ shown ∧ document.raw = s'.db.settings.lastFeed := by
    intro same
    rw [same]
    exact guarded.feed.imp id fun ⟨n, now, body, document, hmem, hraw⟩ =>
      ⟨n, now, body, document, List.mem_append_left _ hmem, hraw⟩
  cases next.effect with
  | kept quiet same => exact hold same.1
  | reset eq feed sequences => exact hold feed
  | accepted n now body document eq forward sequences feed =>
    exact .inr ⟨n, now, body, document, by simp [eq], feed.symm⟩

theorem Guarded.next_recording {n : Nat}
    (h : s'.checks.lookup n = some (.recording now body document)) :
    v.verifyFeed body now = .ok document := by
  have hold := guarded.recording n now body document
  cases next with
  | begin_ | start | rejected | overtaken =>
    rcases Table.lookup_insert_some.mp h with ⟨-, heq⟩ | ⟨-, h⟩
    · cases heq
    · exact hold h
  | verified fetched at_ ok =>
    rcases Table.lookup_insert_some.mp h with ⟨-, heq⟩ | ⟨-, h⟩
    · cases heq
      exact judge_ok ok
    · exact hold h
  | recorded | failed | dropped => exact hold (Table.lookup_erase_some.mp h).2
  | configured | chosen | reset => exact hold h

theorem Guarded.next_accepted {n : Nat} (h : .accepted n now body document ∈ es ++ shown) :
    v.verifyFeed body now = .ok document := by
  rcases List.mem_append.mp h with h | h
  · exact guarded.accepted n now body document h
  · cases next with
    | recorded at_ ok =>
      cases List.mem_singleton.mp h
      exact guarded.recording _ _ _ _ at_
    | _ => simp at h

end

theorem Guarded.next (guarded : Guarded v es s) (next : Next v sha256 s shown s') :
    Guarded v (es ++ shown) s' where
  sequences := guarded.next_sequences next
  feed := guarded.next_feed next
  accepted _ _ _ _ h := guarded.next_accepted next h
  recording _ _ _ _ h := guarded.next_recording next h

theorem Run.guarded (run : Run v sha256 es s) : Guarded v es s :=
  run.always .init fun _ _ _ _ _ guarded next _ => guarded.next next

/-- **The feed moves forward only.** In every run, whatever is fetched and whatever the clock
    says: the recorded sequence of a key is the largest that was accepted under it since the
    last reset; the stored feed is the canonical envelope of a body that was vouched for at
    the time of its check; no step but a reset lowers a sequence, and no step but an
    acceptance or a reset touches the feed or a sequence. -/
theorem feed_moves_forward (run : Run v sha256 es s) :
    (∀ key, s.db.sequences.lookup key = (acceptedUnder key es).max?) ∧
    (s.db.settings.lastFeed = [] ∨ ∃ n now body document, .accepted n now body document ∈ es ∧
      s.db.settings.lastFeed = document.raw ∧ Vouched v body now document) ∧
    ∀ shown s', Next v sha256 s shown s' →
      (.reset ∉ shown → ∀ key m, s.db.sequences.lookup key = some m →
        ∃ m', s'.db.sequences.lookup key = some m' ∧ m ≤ m') ∧
      ((∀ e ∈ shown, e.quiet = true) → s.db.SameFeed s'.db) := by
  have guarded := run.guarded
  refine ⟨guarded.sequences, ?_, fun shown s' next => ⟨fun hreset key m hm => ?_, fun quiet => ?_⟩⟩
  · refine guarded.feed.imp id fun ⟨n, now, body, document, hmem, hraw⟩ => ?_
    exact ⟨n, now, body, document, hmem, hraw.symm,
      Verify_ok (guarded.accepted n now body document hmem)⟩
  · cases next.effect with
    | kept _ same => exact ⟨m, by rw [same.2, hm], Int.le_refl m⟩
    | reset eq => exact absurd (by simp [eq]) hreset
    | accepted n now body document eq forward sequences feed =>
      rw [sequences, Table.lookup_insert_eq]
      split
      · next heq => exact ⟨_, rfl, forward m (heq ▸ hm)⟩
      · exact ⟨m, hm, Int.le_refl m⟩
  · cases next.effect with
    | kept _ same => exact same
    | reset eq | accepted n now body document eq => simp [eq, Event.quiet] at quiet

/-! Executable steps. -/

inductive Turn where
  | choose (clock : Int) (by_ : Actor) (enabled : Bool)
  | begin_
  | start (n : Nat) (now : Int)
  | fetched (n : Nat) (result : Except FeedError Bytes)
  | record (n : Nat)
  | fail (n : Nat) (clock : Int)
  | reset (clock : Int) (by_ : Actor)

def committed {α : Type} (tx : Tx α) (db : Db) : Option (α × Db) :=
  match tx db with
  | .ok a db' => some (a, db')
  | .error _ _ => none

theorem committed_some {α : Type} {tx : Tx α} {a : α} (h : committed tx db = some (a, db')) :
    tx db = .ok a db' := by
  unfold committed at h
  split at h
  · cases h
    assumption
  · cases h

def Turn.play (v : Verifier) (sha256 : Bytes → Bytes) (s : System) :
    Turn → Option (List Event × System)
  | .choose clock by_ enabled =>
    (committed (chooseUpdatesAtSetup sha256 clock by_ enabled) s.db).map fun r =>
      ([], { s with db := r.2 })
  | .begin_ =>
    if s.db.settings.enabled = .on then
      some ([], { s with
        checks := s.checks.insert s.started .reading
        started := s.started + 1 })
    else none
  | .start n now =>
    match s.checks.lookup n with
    | some .reading =>
      some ([], { s with checks := s.checks.insert n (.fetching now s.db.sequences) })
    | _ => none
  | .fetched n result =>
    match s.checks.lookup n with
    | some (.fetching now sequences) =>
      match judge v sequences now result with
      | .ok (body, document) =>
        some ([], { s with checks := s.checks.insert n (.recording now body document) })
      | .error e => some ([], { s with checks := s.checks.insert n (.failing now (codeOf e)) })
    | _ => none
  | .record n =>
    match s.checks.lookup n with
    | some (.recording now body document) =>
      (committed (recordUpdateFeed (document.feed now)) s.db).map fun r =>
        ([.accepted n now body document], { s with db := r.2, checks := s.checks.erase n })
    | _ => none
  | .fail n clock =>
    match s.checks.lookup n with
    | some (.failing _ code) =>
      (committed (recordUpdateFailure sha256 clock code) s.db).map fun r =>
        ([.failed n code], { s with db := r.2, checks := s.checks.erase n })
    | _ => none
  | .reset clock by_ =>
    (committed (resetUpdateSequences sha256 clock by_) s.db).map fun r =>
      ([.reset], { s with db := r.2 })

theorem Turn.play_next {turn : Turn} (h : turn.play v sha256 s = some (shown, s')) :
    Next v sha256 s shown s' := by
  cases turn with
  | choose clock by_ enabled =>
    obtain ⟨r, hr, heq⟩ := Option.map_eq_some_iff.mp h
    cases heq
    exact .chosen clock by_ enabled (committed_some hr)
  | begin_ =>
    obtain ⟨on, h⟩ := Option.ite_none_right_eq_some.mp h
    cases h
    exact .begin_ on
  | start n now =>
    dsimp only [play] at h
    split at h
    case h_2 => cases h
    next at_ =>
    cases h
    exact .start now at_
  | fetched n result =>
    dsimp only [play] at h
    split at h
    case h_2 => cases h
    next at_ =>
    split at h
    · next ok =>
      cases h
      exact .verified result at_ ok
    · next bad =>
      cases h
      exact .rejected result at_ bad
  | record n =>
    dsimp only [play] at h
    split at h
    case h_2 => cases h
    next at_ =>
    obtain ⟨r, hr, heq⟩ := Option.map_eq_some_iff.mp h
    cases heq
    exact .recorded at_ (committed_some hr)
  | fail n clock =>
    dsimp only [play] at h
    split at h
    case h_2 => cases h
    next at_ =>
    obtain ⟨r, hr, heq⟩ := Option.map_eq_some_iff.mp h
    cases heq
    exact .failed clock at_ (committed_some hr)
  | reset clock by_ =>
    obtain ⟨r, hr, heq⟩ := Option.map_eq_some_iff.mp h
    cases heq
    exact .reset clock by_ (committed_some hr)

namespace Demo

def keyID : Bytes := utf8 "main"

/-- A verifier with stand-ins for its primitives: the body is the payload, and its first byte the
    sequence. -/
def verifier : Verifier where
  keys := (∅ : Table Bytes Bytes).insert keyID [7]
  registry := (∅ : Registry).insert (utf8 "sesame-server")
    ⟨utf8 "sesame-server", [utf8 "stable", utf8 "beta"]⟩
  decodeEnvelope body :=
    .done ⟨Encoding.encode body, Encoding.encode (List.replicate 64 0), keyID⟩
  decodePayload payload :=
    .done ⟨1, payload.headD 0 |>.toNat, 0, 3600 * second, [⟨utf8 "sesame-server", ∅⟩]⟩
  verify key _ signature := key == [7] && signature == List.replicate 64 0
  parseURL _ := none

def hash (message : Bytes) : Bytes := message.take 4

def owner : Actor := ⟨.owner, utf8 "ada"⟩

/-- Checks fetch the sequences 5, 7 and 6; then all is forgotten, and 6 is fetched again. -/
def turns : List Turn :=
  [.choose 0 owner true,
    .begin_, .start 0 10, .fetched 0 (.ok [5]), .record 0,
    .begin_, .start 1 20, .fetched 1 (.ok [7]), .record 1,
    .begin_, .start 2 30, .fetched 2 (.ok [6]), .fail 2 30,
    .reset 40 owner,
    .begin_, .start 3 50, .fetched 3 (.ok [6]), .record 3]

def checked (turns : List Turn) : List Event × System :=
  playAll (fun turn s => turn.play verifier hash s) turns ([], .init)

theorem checked_run (turns : List Turn) : Run verifier hash (checked turns).1 (checked turns).2 :=
  playAll_path (fun _ _ _ _ => Turn.play_next) (.refl trivial)

/-- Sequence 6 is refused after 7, and accepted after the reset. -/
theorem older_feed_refused : acceptedUnder keyID (checked (turns.take 13)).1 = [5, 7] ∧
    (checked (turns.take 13)).2.db.sequences.lookup keyID =
      (acceptedUnder keyID (checked (turns.take 13)).1).max? ∧
    (checked (turns.take 13)).2.db.settings.lastError = some .rollback ∧
    acceptedUnder keyID (checked turns).1 = [6] ∧
    (checked turns).2.db.sequences.lookup keyID = (acceptedUnder keyID (checked turns).1).max? :=
  ⟨by decide +kernel, (feed_moves_forward (checked_run _)).1 keyID, by decide +kernel, by decide +kernel,
    (feed_moves_forward (checked_run _)).1 keyID⟩

end Demo

end Sesame.Updates

import SesameServer.Lib.Calendar
import SesameServer.Lib.HashChain
import SesameServer.Lib.Json
import SesameServer.Lib.Sha256
import SesameServer.Lib.Sorted

/- The audit log of the self-hosted server (`internal/selfhost/sqlitestore/audit.go`).

   1. `auditCanonical`, `auditHash`, `validAuditInput`, `appendAudit` — a row is chained to
      the one before it by a hash of that hash and of its JSON form.
   2. `AuditScan`, `scanAudit` — the scan that `VerifyAudit` starts at the first row and
      `VerifyAuditIncremental` takes up at the last row it has verified.
   3. `Verified`, `foldl_consume` — what a scan without a break says of the rows.
   4. `canonical_inj` — the JSON form determines the row's texts, details and time. -/
namespace Sesame.Selfhost
open Json

/-! Rows. -/

/-- A row of `audit_log`. -/
structure AuditRow where
  seq : Int
  actor : Bytes
  action : Bytes
  target : Bytes
  detail : Bytes
  time : Int
  prevHash : Bytes
  hash : Bytes
  deriving DecidableEq

/-- The table in the order of its key. -/
structure AuditLog where
  rows : List AuditRow
  sorted : rows.Pairwise fun x y => x.seq < y.seq

def AuditLog.empty : AuditLog := ⟨[], List.Pairwise.nil⟩

inductive ActorKind where
  | owner | device | system
  | other (text : Bytes)
  deriving DecidableEq

def ActorKind.text : ActorKind → Bytes
  | .owner => utf8 "owner"
  | .device => utf8 "device"
  | .system => utf8 "system"
  | .other text => text

structure Actor where
  kind : ActorKind
  id : Bytes
  deriving DecidableEq

def Actor.string (a : Actor) : Bytes :=
  if a.id = [] then a.kind.text else a.kind.text ++ utf8 ":" ++ a.id

structure AuditInput where
  actor : Actor
  action : Bytes
  target : Bytes
  detail : StringMap
  deriving DecidableEq

structure AuditEntry where
  seq : Int
  actor : Bytes
  action : Bytes
  target : Bytes
  detail : StringMap
  time : Int
  prevHash : Bytes
  hash : Bytes
  deriving DecidableEq

/-! Writing. -/

def auditChainVersion : Bytes := utf8 "sesame-selfhost-audit-v1"
def maxAuditActionLength : Nat := 64
def maxAuditTargetLength : Nat := 256
def maxAuditKeyLength : Nat := 64
def maxAuditDetailEntries : Nat := 16
def maxAuditDetailValueBytes : Nat := 512

def auditGenesisHash : Bytes := List.replicate 32 0

/-- `json.Marshal` of the map with these five keys: they are written in order. -/
def canonicalPieces (actor action target : Bytes) (detail : StringMap) (time : Int) :
    List Utf8.Piece :=
  .ascii 123 :: (label "action" ++ (quote action ++ (comma :: label "actor" ++ (quote actor ++
    (comma :: label "at" ++ (quote (Calendar.rfc3339 time) ++ (comma :: label "detail" ++
      (object detail.entries ++ (comma :: label "target" ++ (quote target ++ [.ascii 125]))))))))))

def auditCanonical (actor action target : Bytes) (detail : StringMap) (time : Int) : Bytes :=
  (canonicalPieces actor action target detail time).flatMap Utf8.Piece.bytes

def auditMessage (previous canonical : Bytes) : Bytes :=
  auditChainVersion ++ [10] ++ previous ++ [10] ++ canonical

def validAuditInput (input : AuditInput) : Bool :=
  (match input.actor.kind with
    | .owner | .device | .system => true
    | .other _ => false) &&
  !(input.action.isEmpty || input.action.length > maxAuditActionLength ||
    input.target.length > maxAuditTargetLength || input.actor.id.length > maxAuditTargetLength) &&
  !(input.detail.entries.length > maxAuditDetailEntries) &&
  input.detail.entries.all fun entry => !(entry.1.isEmpty || entry.1.length > maxAuditKeyLength ||
    entry.2.length > maxAuditDetailValueBytes)

section
variable (sha256 : Bytes → Bytes)

def auditHash (previous canonical : Bytes) : Bytes := sha256 (auditMessage previous canonical)

/-- The row that comes next, and the entry that is returned for it. -/
def nextRow (last : Option AuditRow) (input : AuditInput) (time : Int) : AuditRow :=
  let previous := (last.map (·.hash)).getD auditGenesisHash
  let actor := input.actor.string
  ⟨(last.map (·.seq)).getD 0 + 1, actor, input.action, input.target, marshal input.detail, time,
    previous, auditHash sha256 previous
      (auditCanonical actor input.action input.target input.detail time)⟩

theorem lt_nextRow (last : Option AuditRow) (input : AuditInput) (time : Int) :
    ∀ x ∈ last, x.seq < (nextRow sha256 last input time).seq := by
  rintro x rfl
  exact Int.lt_succ x.seq

/-- `appendAudit`; `none` is `ErrInvalidInput`. -/
def appendAudit (log : AuditLog) (input : AuditInput) (time : Int) :
    Option (AuditEntry × AuditLog) :=
  if validAuditInput input then
    let row := nextRow sha256 log.rows.getLast? input time
    some (⟨row.seq, row.actor, row.action, row.target, input.detail, time,
        Encoding.hex row.prevHash, Encoding.hex row.hash⟩,
      ⟨log.rows ++ [row], Sorted.snoc log.sorted (lt_nextRow sha256 _ input time)⟩)
  else none

/-! Verifying. -/

structure AuditBreak where
  seq : Int
  reason : String
  deriving DecidableEq

structure AuditReport where
  ok : Bool
  rows : Nat
  headSeq : Int
  headHash : Bytes
  firstBreak : Option AuditBreak
  deriving DecidableEq

/-- What a verification leaves for the next one. -/
structure AuditState where
  report : AuditReport
  head : Bytes
  deriving DecidableEq

structure AuditScan where
  report : AuditReport
  expectedSeq : Int
  expectedPrevious : Bytes
  head : Bytes
  deriving DecidableEq

def newAuditScan : AuditScan := ⟨⟨true, 0, 0, [], none⟩, 1, auditGenesisHash, auditGenesisHash⟩

def AuditScan.resume (state : AuditState) : AuditScan :=
  ⟨{ state.report with ok := true, firstBreak := none }, state.report.headSeq + 1, state.head,
    state.head⟩

def AuditScan.fail (a : AuditScan) (seq : Int) (reason : String) : AuditScan :=
  match a.report.firstBreak with
  | none => { a with report := { a.report with ok := false, firstBreak := some ⟨seq, reason⟩ } }
  | some _ => a

/-- Why a row breaks the chain; `none` if it does not. -/
def auditRowBreak (expectedSeq : Int) (expectedPrevious : Bytes) (row : AuditRow) : Option String :=
  if row.seq ≠ expectedSeq then some "sequence gap or reorder"
  else if row.prevHash ≠ expectedPrevious then
    some "previous hash does not match the preceding row"
  else match unmarshal row.detail with
    | none => some "detail is not valid"
    | some detail =>
      if auditHash sha256 row.prevHash
          (auditCanonical row.actor row.action row.target detail row.time) ≠ row.hash then
        some "row hash does not match its content"
      else none

def AuditScan.consume (a : AuditScan) (row : AuditRow) : AuditScan :=
  let a := { a with
    report := { a.report with rows := a.report.rows + 1, headSeq := row.seq }
    head := row.hash }
  match a.report.firstBreak with
  | some _ => a
  | none =>
    match auditRowBreak sha256 a.expectedSeq a.expectedPrevious row with
    | some reason => a.fail row.seq reason
    | none => { a with expectedSeq := a.expectedSeq + 1, expectedPrevious := row.hash }

def AuditScan.result (a : AuditScan) : AuditReport :=
  { a.report with headHash := Encoding.hex a.head }

/-- The first row that is read when a verified head is known. -/
def AuditScan.checkHead (a : AuditScan) (fromSeq : Int) (verifiedHash : Bytes) (row : AuditRow) :
    AuditScan :=
  if row.seq ≠ fromSeq ∨ row.hash ≠ verifiedHash then
    (a.fail fromSeq "the last verified row is missing or changed").consume sha256 row
  else match auditRowBreak sha256 row.seq row.prevHash row with
    | some reason => a.fail row.seq reason
    | none => a

/-- `SELECT … WHERE seq >= max(fromSeq, 1) ORDER BY seq`. -/
def AuditLog.since (log : AuditLog) (fromSeq : Int) : List AuditRow :=
  log.rows.filter fun row => max fromSeq 1 ≤ row.seq

def scanAudit (log : AuditLog) (scan : AuditScan) (fromSeq : Int) (verifiedHash : Option Bytes) :
    AuditScan :=
  match verifiedHash, log.since fromSeq with
  | none, rows => rows.foldl (AuditScan.consume sha256) scan
  | some _, [] => scan.fail fromSeq "the last verified row is missing or changed"
  | some hash, row :: rows =>
    rows.foldl (AuditScan.consume sha256) (scan.checkHead sha256 fromSeq hash row)

def fullScan (log : AuditLog) : AuditScan := scanAudit sha256 log newAuditScan 0 none

def verifyAudit (log : AuditLog) : AuditReport := (fullScan sha256 log).result

/-! What a scan without a break says. -/

/-- Rows numbered from 1, each chained to the one before it and hashed as it reads. -/
inductive Verified : List AuditRow → Prop
  | nil : Verified []
  | snoc {rows : List AuditRow} {row : AuditRow} (before : Verified rows)
      (fits : auditRowBreak sha256 (rows.length + 1)
        (HashChain.tip auditGenesisHash (·.hash) rows) row = none) : Verified (rows ++ [row])

/-- The rows that a full scan reads. -/
def AuditLog.visible (log : AuditLog) : List AuditRow := log.since 0

variable {sha256}

theorem auditRowBreak_eq_none {expectedSeq : Int} {expectedPrevious : Bytes} {row : AuditRow} :
    auditRowBreak sha256 expectedSeq expectedPrevious row = none ↔
      row.seq = expectedSeq ∧ row.prevHash = expectedPrevious ∧
      ∃ detail, unmarshal row.detail = some detail ∧ row.hash = auditHash sha256 row.prevHash
        (auditCanonical row.actor row.action row.target detail row.time) := by
  unfold auditRowBreak
  split
  · next h => simp [h]
  · next hseq =>
    split
    · next h => simp [h]
    · next hprev =>
      rw [not_not] at hseq hprev
      split
      · next h => simp [h]
      · next detail h =>
        split
        · next hne =>
          rw [hprev] at hne
          simp [hseq, hprev, h, Ne.symm hne]
        · next heq =>
          rw [not_not, hprev] at heq
          simp [hseq, hprev, h, heq]

variable {a : AuditScan} {rows : List AuditRow} {actor action target : Bytes}
  {detail detail' : StringMap} {time : Int}

/-- A scan keeps counting rows and the head after a break, and the break stays. -/
theorem consume_of_break {b : AuditBreak} (h : a.report.firstBreak = some b)
    (row : AuditRow) : (a.consume sha256 row).report.firstBreak = some b := by
  unfold AuditScan.consume
  simp [h]

theorem foldl_consume_of_break {b : AuditBreak} (h : a.report.firstBreak = some b)
    (rows : List AuditRow) :
    (rows.foldl (AuditScan.consume sha256) a).report.firstBreak = some b := by
  induction rows generalizing a with
  | nil => exact h
  | cons row rows ih => exact ih (consume_of_break h row)

theorem consume_counts (a : AuditScan) (row : AuditRow) :
    (a.consume sha256 row).report.rows = a.report.rows + 1 ∧
      (a.consume sha256 row).head = row.hash := by
  unfold AuditScan.consume AuditScan.fail
  dsimp only
  split
  · exact ⟨rfl, rfl⟩
  · split
    · split <;> exact ⟨rfl, rfl⟩
    · exact ⟨rfl, rfl⟩

theorem foldl_consume_counts (a : AuditScan) (rows : List AuditRow) :
    (rows.foldl (AuditScan.consume sha256) a).report.rows = a.report.rows + rows.length ∧
      (rows.foldl (AuditScan.consume sha256) a).head =
        HashChain.tip a.head (·.hash) rows := by
  induction rows using List.reverseRecOn with
  | nil => exact ⟨rfl, rfl⟩
  | append_singleton rows row ih =>
    rw [List.foldl_append]
    change (AuditScan.consume sha256 _ row).report.rows = _ ∧ _
    rw [HashChain.tip_snoc, (consume_counts _ row).1, ih.1, List.length_append]
    exact ⟨rfl, (consume_counts _ row).2⟩

def verifiedScan (rows : List AuditRow) : AuditScan :=
  ⟨⟨true, rows.length, rows.length, [], none⟩, rows.length + 1,
    HashChain.tip auditGenesisHash (·.hash) rows, HashChain.tip auditGenesisHash (·.hash) rows⟩

theorem Verified.foldl (h : Verified sha256 rows) :
    rows.foldl (AuditScan.consume sha256) newAuditScan = verifiedScan rows := by
  induction h with
  | nil => rfl
  | @snoc rows row before fits ih =>
    have hseq := (auditRowBreak_eq_none.mp fits).1
    rw [List.foldl_append, ih]
    simp [AuditScan.consume, verifiedScan, fits, hseq]

/-- **A scan finds no break** exactly in verified rows. -/
theorem foldl_consume :
    (rows.foldl (AuditScan.consume sha256) newAuditScan).report.firstBreak = none ↔
      Verified sha256 rows := by
  constructor
  · intro h
    induction rows using List.reverseRecOn with
    | nil => exact .nil
    | append_singleton rows row ih =>
      rw [List.foldl_append] at h
      cases hbreak : (rows.foldl (AuditScan.consume sha256) newAuditScan).report.firstBreak with
      | some b =>
        rw [foldl_consume_of_break hbreak [row]] at h
        cases h
      | none =>
        have before := ih hbreak
        refine .snoc before ?_
        rw [before.foldl] at h
        cases hfits : auditRowBreak sha256 (rows.length + 1)
            (HashChain.tip auditGenesisHash (·.hash) rows) row with
        | none => rfl
        | some reason =>
          simp [AuditScan.consume, AuditScan.fail, verifiedScan, hfits] at h
  · intro h
    rw [h.foldl]
    rfl

theorem consume_ok (h : a.report.ok = a.report.firstBreak.isNone) (row : AuditRow) :
    (a.consume sha256 row).report.ok = (a.consume sha256 row).report.firstBreak.isNone := by
  unfold AuditScan.consume AuditScan.fail
  dsimp only
  split
  · exact h
  · split
    · split
      · rfl
      · exact h
    · exact h

theorem foldl_consume_ok (h : a.report.ok = a.report.firstBreak.isNone)
    (rows : List AuditRow) : (rows.foldl (AuditScan.consume sha256) a).report.ok =
      (rows.foldl (AuditScan.consume sha256) a).report.firstBreak.isNone := by
  induction rows generalizing a with
  | nil => exact h
  | cons row rows ih => exact ih (consume_ok h row)

theorem verifyAudit_spec (log : AuditLog) :
    ((verifyAudit sha256 log).ok = true ↔ Verified sha256 log.visible) ∧
    (verifyAudit sha256 log).rows = log.visible.length ∧ (verifyAudit sha256 log).headHash =
      Encoding.hex (HashChain.tip auditGenesisHash (·.hash) log.visible) := by
  have counts := @foldl_consume_counts sha256 newAuditScan log.visible
  refine ⟨?_, ?_, ?_⟩
  · change (log.visible.foldl (AuditScan.consume sha256) newAuditScan).report.ok = true ↔ _
    rw [foldl_consume_ok rfl, Option.isNone_iff_eq_none, foldl_consume]
  · exact counts.1.trans (Nat.zero_add _)
  · exact congrArg Encoding.hex counts.2

theorem Verified.chained (h : Verified sha256 rows) :
    HashChain.Chained auditGenesisHash (·.prevHash) (·.hash) rows := by
  induction h with
  | nil => exact .nil
  | snoc before fits ih => exact .snoc ih (auditRowBreak_eq_none.mp fits).2.1

theorem Verified.hashed (h : Verified sha256 rows) {row : AuditRow}
    (hrow : row ∈ rows) : ∃ detail, unmarshal row.detail = some detail ∧
      row.hash = auditHash sha256 row.prevHash
        (auditCanonical row.actor row.action row.target detail row.time) := by
  induction h with
  | nil => cases hrow
  | snoc before fits ih =>
    rcases List.mem_append.mp hrow with hrow | hrow
    · exact ih hrow
    · rw [List.mem_singleton.mp hrow]
      exact (auditRowBreak_eq_none.mp fits).2.2

theorem Verified.seq (h : Verified sha256 rows) :
    rows.map (·.seq) = (List.range rows.length).map fun i : Nat => (i : Int) + 1 := by
  induction h with
  | nil => rfl
  | snoc before fits ih =>
    rw [List.map_append, ih, List.length_append, List.length_singleton, List.range_succ,
      List.map_append, List.map_singleton, List.map_singleton, (auditRowBreak_eq_none.mp fits).1]

/-! The JSON form. -/

theorem canonicalPieces_wf (actor action target : Bytes) (detail : StringMap) (time : Int) :
    ∀ p ∈ canonicalPieces actor action target detail time, p.WF := by
  intro p hp
  simp only [canonicalPieces, List.mem_cons, List.mem_append, List.not_mem_nil, or_false,
    List.cons_append] at hp
  rcases hp with rfl | hp | hp | rfl | hp | hp | rfl | hp | hp | rfl | hp | hp | rfl | hp | hp | rfl
  all_goals first
    | decide
    | exact label_wf _ p hp
    | exact quote_wf _ p hp
    | exact object_wf _ p hp

theorem canonicalPieces_eq {actor' action' target' : Bytes} {time' : Int}
    (h : auditCanonical actor action target detail time =
      auditCanonical actor' action' target' detail' time') :
    canonicalPieces actor action target detail time =
      canonicalPieces actor' action' target' detail' time' := by
  rw [← Utf8.pieces_flatMap_eq (canonicalPieces_wf actor action target detail time),
    ← Utf8.pieces_flatMap_eq (canonicalPieces_wf actor' action' target' detail' time')]
  exact congrArg Utf8.pieces h

/-- **The JSON form determines the row**, up to bytes that are no UTF-8. -/
theorem canonical_inj {actor' action' target' : Bytes} {time' : Int}
    (h : auditCanonical actor action target detail time =
      auditCanonical actor' action' target' detail' time') :
    clean actor = clean actor' ∧ clean action = clean action' ∧ clean target = clean target' ∧
      detail.entries.map cleanEntry = detail'.entries.map cleanEntry ∧
      Calendar.rfc3339 time = Calendar.rfc3339 time' := by
  have hpieces := canonicalPieces_eq h
  have rest := List.append_cancel_left (List.cons.inj hpieces).2
  obtain ⟨heqAction, rest⟩ := quote_inj rest
  obtain ⟨heqActor, rest⟩ := quote_inj (List.append_cancel_left rest)
  obtain ⟨htime, rest⟩ := quote_inj (List.append_cancel_left rest)
  obtain ⟨hentries, rest⟩ := object_inj (List.append_cancel_left rest)
  obtain ⟨heqTarget, -⟩ := quote_inj (List.append_cancel_left rest)
  have hascii : ∀ t, clean (Calendar.rfc3339 t) = Calendar.rfc3339 t := fun t =>
    clean_of_valid (Utf8.valid_of_ascii (Calendar.rfc3339_ascii t))
  rw [hascii, hascii] at htime
  exact ⟨heqActor, heqAction, heqTarget, hentries, htime⟩

/-- Details that are cleaned have the same form. -/
theorem canonical_clean (h : detail'.entries = detail.entries.map cleanEntry) :
    auditCanonical actor action target detail' time =
      auditCanonical actor action target detail time := by
  simp only [auditCanonical, canonicalPieces, h, object_clean]

/-- Hashes of one length separate the previous hash from the content. -/
theorem auditMessage_inj {previous previous' canonical canonical' : Bytes}
    (hsize : previous.length = previous'.length)
    (h : auditMessage previous canonical = auditMessage previous' canonical') :
    previous = previous' ∧ canonical = canonical' := by
  simp only [auditMessage, List.append_assoc] at h
  obtain ⟨hprev, hrest⟩ := List.append_inj
    (List.append_cancel_left (List.append_cancel_left h)) hsize
  exact ⟨hprev, List.append_cancel_left hrest⟩

end

end Sesame.Selfhost

import SesameServer.Selfhost.AuditLog

/- Verifying only the rows that are new.

   1. `AuditStore`, `verifyAuditIncremental` — the store keeps the outcome of its last
      verification and takes it up again.
   2. `resumed_scan` — over a log whose verified rows are unchanged, the scan that is taken
      up ends as the full scan does.
   3. `incremental_eq_full` — in every run that leaves the verified rows alone, the
      incremental report is the full one. -/
namespace Sesame.Selfhost

/-- The store: its audit table, and what the last verification left in memory. -/
structure AuditStore where
  log : AuditLog
  state : Option AuditState

def remember (scan : AuditScan) : AuditState := ⟨scan.result, scan.head⟩

def AuditStore.verifyAudit (sha256 : Bytes → Bytes) (s : AuditStore) : AuditReport × AuditStore :=
  let scan := fullScan sha256 s.log
  (scan.result, { s with state := some (remember scan) })

def AuditStore.verifyAuditIncremental (sha256 : Bytes → Bytes) (s : AuditStore) :
    AuditReport × AuditStore :=
  match s.state with
  | none => s.verifyAudit sha256
  | some state =>
    if state.report.ok then
      let verifiedHead := if 0 < state.report.headSeq then some state.head else none
      let scan := scanAudit sha256 s.log (.resume state) state.report.headSeq verifiedHead
      (scan.result, { s with state := some (remember scan) })
    else (state.report, s)

/-- The rows that a scan has read once it is at a number. -/
def AuditLog.upTo (log : AuditLog) (n : Int) : List AuditRow :=
  log.visible.filter fun row => row.seq ≤ n

/-- One move: a row appended, by the store or by anyone, with a larger number than all rows
    before; any other write, as long as the rows of a good outcome in memory are unchanged;
    a verification of either kind; the outcome forgotten, by an error or a restart. -/
inductive AuditStore.Move (sha256 : Bytes → Bytes) : AuditStore → AuditStore → Prop
  | append (s : AuditStore) (row : AuditRow) (larger : ∀ x ∈ s.log.rows.getLast?, x.seq < row.seq) :
      Move sha256 s ⟨⟨s.log.rows ++ [row], Sorted.snoc s.log.sorted larger⟩, s.state⟩
  | write (s : AuditStore) (log : AuditLog)
      (kept : ∀ state ∈ s.state, state.report.ok = true →
        log.upTo state.report.headSeq = s.log.upTo state.report.headSeq) :
      Move sha256 s ⟨log, s.state⟩
  | verify (s : AuditStore) : Move sha256 s (s.verifyAudit sha256).2
  | incremental (s : AuditStore) : Move sha256 s (s.verifyAuditIncremental sha256).2
  | forget (s : AuditStore) : Move sha256 s ⟨s.log, none⟩

/-- A run from any table, before any verification. -/
inductive AuditStore.Reachable (sha256 : Bytes → Bytes) : AuditStore → Prop
  | start (log : AuditLog) : Reachable sha256 ⟨log, none⟩
  | move {s t : AuditStore} (before : Reachable sha256 s) (move : Move sha256 s t) :
      Reachable sha256 t

variable {sha256 : Bytes → Bytes}

/-! Scans do not read the hash that the report will show. -/

/-- The scan without the text of the head's hash in its report. -/
def AuditScan.plain (a : AuditScan) : AuditScan :=
  { a with report := { a.report with headHash := [] } }

theorem consume_plain (a : AuditScan) (row : AuditRow) :
    a.plain.consume sha256 row = (a.consume sha256 row).plain := by
  unfold AuditScan.consume AuditScan.fail AuditScan.plain
  dsimp only
  split
  · rfl
  · split
    · split <;> rfl
    · rfl

theorem foldl_consume_plain (a : AuditScan) (rows : List AuditRow) :
    rows.foldl (AuditScan.consume sha256) a.plain =
      (rows.foldl (AuditScan.consume sha256) a).plain := by
  induction rows generalizing a with
  | nil => rfl
  | cons row rows ih =>
    rw [List.foldl_cons, consume_plain, ih]
    rfl

theorem resume_plain (rows : List AuditRow) :
    (AuditScan.resume (remember (verifiedScan rows))).plain = verifiedScan rows := rfl

/-! Where the verified rows end. -/

theorem visible_sorted (log : AuditLog) : log.visible.Pairwise fun x y => x.seq < y.seq :=
  log.sorted.sublist List.filter_sublist

theorem visible_eq (log : AuditLog) (n : Int) :
    log.visible = log.upTo n ++ log.visible.filter fun row => n + 1 ≤ row.seq := by
  conv_lhs => rw [Sorted.split (visible_sorted log) (n + 1)]
  congr 1
  exact List.filter_congr fun row _ => by rw [decide_eq_decide]; omega

theorem since_eq (log : AuditLog) {n : Int} (h : 1 ≤ n) :
    log.since n = log.visible.filter fun row => n ≤ row.seq := by
  unfold AuditLog.visible AuditLog.since
  rw [List.filter_filter]
  refine List.filter_congr fun row _ => ?_
  simp only [← Bool.decide_and, decide_eq_decide]
  omega

theorem Verified.seq_le {rows : List AuditRow} (h : Verified sha256 rows) :
    ∀ row ∈ rows, row.seq ≤ rows.length := by
  intro row hrow
  have hmem : row.seq ∈ rows.map (·.seq) := List.mem_map_of_mem hrow
  rw [h.seq] at hmem
  obtain ⟨i, hi, hseq⟩ := List.mem_map.mp hmem
  have := List.mem_range.mp hi
  omega

theorem Verified.last {rows : List AuditRow} (h : Verified sha256 rows) (hne : rows ≠ []) :
    ∃ (init : List AuditRow) (last : AuditRow), rows = init ++ [last] ∧ Verified sha256 init ∧
      last.seq = rows.length ∧ auditRowBreak sha256 last.seq last.prevHash last = none := by
  cases h with
  | nil => exact absurd rfl hne
  | @snoc rows row before fits =>
    obtain ⟨hseq, -, hhash⟩ := auditRowBreak_eq_none.mp fits
    refine ⟨rows, row, rfl, before, ?_, auditRowBreak_eq_none.mpr ⟨rfl, rfl, hhash⟩⟩
    rw [hseq]
    simp

variable {log : AuditLog} {s : AuditStore}

theorem upTo_length (h : Verified sha256 log.visible) : log.upTo log.visible.length = log.visible :=
  List.filter_eq_self.mpr fun row hrow => by simpa using h.seq_le row hrow

/-- The scan that is taken up after verified rows ends as the full scan. -/
theorem resumed_scan {n : Nat} (verified : Verified sha256 (log.upTo n))
    (hn : (log.upTo n).length = n) :
    (scanAudit sha256 log (.resume (remember (verifiedScan (log.upTo n)))) n
      (if 0 < (n : Int) then some (remember (verifiedScan (log.upTo n))).head else none)).plain =
      fullScan sha256 log := by
  -- the full scan reads the verified rows first
  have hfull : fullScan sha256 log =
      (log.visible.filter fun row => (n : Int) + 1 ≤ row.seq).foldl (AuditScan.consume sha256)
        (verifiedScan (log.upTo n)) := by
    change log.visible.foldl (AuditScan.consume sha256) newAuditScan = _
    conv_lhs => rw [visible_eq log n]
    rw [List.foldl_append, verified.foldl]
  rw [hfull]
  rcases Nat.eq_zero_or_pos n with rfl | hpos
  · -- no row was verified: the scan starts with the first
    rw [if_neg (by simp)]
    change ((log.visible.foldl (AuditScan.consume sha256) _)).plain = _
    rw [← foldl_consume_plain, resume_plain]
    have hnil : log.upTo ((0 : Nat) : Int) = [] := List.length_eq_zero_iff.mp hn
    conv_lhs => rw [visible_eq log ((0 : Nat) : Int), hnil]
    rw [hnil]
    rfl
  · -- the last verified row is read once more and found as it was
    obtain ⟨init, last, hrows, hinit, hseq, hbreak⟩ := verified.last (by
      intro hnil
      rw [hnil] at hn
      exact hpos.ne hn)
    rw [hn] at hseq
    have hsince : log.since n =
        last :: log.visible.filter fun row => (n : Int) + 1 ≤ row.seq := by
      rw [since_eq log (by omega)]
      conv_lhs => rw [visible_eq log n, hrows]
      rw [List.filter_append, List.filter_append, List.filter_filter]
      have hlength : init.length + 1 = n := by
        rw [← hn, hrows]
        simp
      have hnone : init.filter (fun row => (n : Int) ≤ row.seq) = [] := by
        refine List.filter_eq_nil_iff.mpr fun row hrow => ?_
        have := hinit.seq_le row hrow
        simp
        omega
      rw [hnone, List.nil_append, List.filter_cons_of_pos (by simp [hseq]), List.filter_nil,
        List.singleton_append]
      congr 1
      refine List.filter_congr fun row _ => ?_
      simp only [← Bool.decide_and, decide_eq_decide]
      omega
    have hhead : (remember (verifiedScan (log.upTo n))).head = last.hash := by
      change HashChain.tip auditGenesisHash (·.hash) (log.upTo n) = last.hash
      rw [hrows, HashChain.tip_snoc]
    rw [if_pos (by omega)]
    unfold scanAudit
    rw [hsince]
    dsimp only
    rw [← foldl_consume_plain]
    unfold AuditScan.checkHead
    rw [if_neg (by simp [hseq, hhead]), hbreak]
    dsimp only
    rw [resume_plain]

/-! Whole runs. -/

/-- A good outcome in memory is that of the rows up to its head. -/
def AuditStore.Current (sha256 : Bytes → Bytes) (s : AuditStore) : Prop :=
  ∀ state ∈ s.state, state.report.ok = true → ∃ n : Nat, Verified sha256 (s.log.upTo n) ∧
    (s.log.upTo n).length = n ∧ state = remember (verifiedScan (s.log.upTo n))

theorem current_verifyAudit (s : AuditStore) : (s.verifyAudit sha256).2.Current sha256 := by
  rintro state hstate hok
  injection hstate with hstate
  subst hstate
  have verified := (verifyAudit_spec s.log).1.mp hok
  refine ⟨s.log.visible.length, ?_, ?_, ?_⟩
  · exact (upTo_length verified).symm ▸ verified
  · exact congrArg List.length (upTo_length verified)
  · change _ = remember (verifiedScan (s.log.upTo _))
    rw [upTo_length verified, ← verified.foldl]
    rfl

/-- With a good outcome in memory, both verifications agree, in what they report and in
    what they leave in memory. -/
theorem incremental_current (current : s.Current sha256)
    (hok : ∀ state ∈ s.state, state.report.ok = true) :
    s.verifyAuditIncremental sha256 = s.verifyAudit sha256 := by
  unfold AuditStore.verifyAuditIncremental
  cases hstate : s.state with
  | none => rfl
  | some state =>
    have hgood := hok state hstate
    obtain ⟨n, verified, hn, rfl⟩ := current state hstate hgood
    have hseq : (remember (verifiedScan (s.log.upTo n))).report.headSeq = n :=
      congrArg Nat.cast hn
    dsimp only
    rw [if_pos hgood, hseq]
    unfold AuditStore.verifyAudit
    rw [← resumed_scan verified hn]
    rfl

theorem upTo_append {row : AuditRow} (larger : ∀ x ∈ log.rows.getLast?, x.seq < row.seq) {n : Nat}
    (hn : (log.upTo n).length = n) (verified : Verified sha256 (log.upTo n)) :
    (AuditLog.mk (log.rows ++ [row]) (Sorted.snoc log.sorted larger)).upTo n = log.upTo n := by
  have hlarger : ∀ x ∈ log.rows, x.seq < row.seq := fun x hx =>
    (List.pairwise_append.mp (Sorted.snoc log.sorted larger)).2.2 x hx row (by simp)
  have hrow : ¬ (row.seq ≤ n ∧ 1 ≤ row.seq) := by
    rintro ⟨hle, hge⟩
    obtain ⟨init, last, hrows, -, hseq, -⟩ := verified.last (by
      intro hnil
      rw [hnil] at hn
      have : n = 0 := hn.symm
      omega)
    have hmem : last ∈ log.upTo n := by
      rw [hrows]
      simp
    have := hlarger last (List.mem_of_mem_filter (List.mem_of_mem_filter hmem))
    omega
  unfold AuditLog.upTo AuditLog.visible AuditLog.since
  rw [List.filter_filter, List.filter_filter, List.filter_append,
    List.filter_cons_of_neg (by simpa using hrow), List.filter_nil, List.append_nil]

theorem Move.current {t : AuditStore} (move : AuditStore.Move sha256 s t)
    (current : s.Current sha256) : t.Current sha256 := by
  cases move with
  | append row larger =>
    intro state hstate hok
    obtain ⟨n, verified, hn, hcached⟩ := current state hstate hok
    refine ⟨n, ?_⟩
    rw [upTo_append larger hn verified]
    exact ⟨verified, hn, hcached⟩
  | write log kept =>
    intro state hstate hok
    obtain ⟨n, verified, hn, hcached⟩ := current state hstate hok
    have hkept := kept state hstate hok
    have hseq : state.report.headSeq = n := by
      rw [hcached]
      exact congrArg Nat.cast hn
    rw [hseq] at hkept
    refine ⟨n, ?_⟩
    rw [hkept]
    exact ⟨verified, hn, hcached⟩
  | verify => exact current_verifyAudit s
  | incremental =>
    by_cases hok : ∀ state ∈ s.state, state.report.ok = true
    · rw [incremental_current current hok]
      exact current_verifyAudit s
    · -- a bad outcome stays
      push Not at hok
      obtain ⟨state, hstate, hbad⟩ := hok
      have hsame : (s.verifyAuditIncremental sha256).2 = s := by
        unfold AuditStore.verifyAuditIncremental
        rw [hstate]
        dsimp only
        rw [if_neg hbad]
      rwa [hsame]
  | forget => exact fun state hstate => by cases hstate

theorem Reachable.current (h : AuditStore.Reachable sha256 s) : s.Current sha256 := by
  induction h with
  | start log => exact fun state hstate => by cases hstate
  | move _ move ih => exact Move.current move ih

/-- **The incremental report is the full one**, whenever the last outcome was good: in
    every run, from any table, of rows appended and verifications of both kinds. -/
theorem incremental_eq_full {s : AuditStore} (reachable : AuditStore.Reachable sha256 s)
    {state : AuditState} (cached : s.state = some state) (ok : state.report.ok = true) :
    (s.verifyAuditIncremental sha256).1 = verifyAudit sha256 s.log := by
  rw [incremental_current (Reachable.current reachable) fun state' hstate => by
    rw [cached] at hstate
    injection hstate with hstate
    rwa [← hstate]]
  rfl

namespace Demo

def entryRow : AuditRow :=
  nextRow Sha256.sum none ⟨⟨.system, []⟩, utf8 "setup.start", [], Json.StringMap.empty⟩ 1700000000

/-- A row that claims the hash before it and leaves out numbers. -/
def gapRow : AuditRow :=
  ⟨5, utf8 "system", utf8 "backup.run", [], utf8 "null", 1700000001, entryRow.hash, entryRow.hash⟩

def verifiedStore : AuditStore :=
  ((⟨⟨[entryRow], List.pairwise_singleton _ _⟩, none⟩ : AuditStore).verifyAudit Sha256.sum).2

theorem gapRow_larger : ∀ x ∈ verifiedStore.log.rows.getLast?, x.seq < gapRow.seq := by
  rintro x ⟨rfl⟩
  decide

def gapStore : AuditStore :=
  ⟨⟨verifiedStore.log.rows ++ [gapRow], Sorted.snoc verifiedStore.log.sorted gapRow_larger⟩,
    verifiedStore.state⟩

theorem gapStore_reported : (gapStore.verifyAuditIncremental Sha256.sum).1 =
      verifyAudit Sha256.sum gapStore.log ∧
    (verifyAudit Sha256.sum gapStore.log).firstBreak = some ⟨5, "sequence gap or reorder"⟩ :=
  ⟨incremental_eq_full (.move (.move (.start _) (.verify _)) (.append verifiedStore _ gapRow_larger))
    rfl (by decide +kernel), by decide +kernel⟩

end Demo

end Sesame.Selfhost

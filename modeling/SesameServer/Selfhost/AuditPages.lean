import SesameServer.Selfhost.AuditLog

/- The pages of the audit log (`ListAudit` in `internal/selfhost/sqlitestore/audit.go`).

   1. `listAudit`, `followAudit` — a page, and a reader who follows the cursors while rows are
      appended between the requests.
   2. `listAudit_rest`, `below_appendEach` — what a page leaves is what the next cursor asks for,
      and no append changes it.
   3. `followAudit_visits` — the reader sees the rows of the start, once and newest first. -/
namespace Sesame.Selfhost
open Json

/-- A `NextCursor` of 0 is none. -/
structure AuditPage where
  entries : List AuditEntry
  nextCursor : Int

def defaultAuditPage : Int := 50
def maxAuditPage : Int := 200

/-- A row as it is returned; details that are not valid are left out. -/
def AuditRow.entry (row : AuditRow) : AuditEntry :=
  ⟨row.seq, row.actor, row.action, row.target, (unmarshal row.detail).getD .empty, row.time,
    Encoding.hex row.prevHash, Encoding.hex row.hash⟩

def auditPageSize (limit : Int) : Nat :=
  let limit := if limit ≤ 0 then defaultAuditPage else limit
  (if limit > maxAuditPage then maxAuditPage else limit).toNat

/-- `SELECT … WHERE seq < ? ORDER BY seq DESC`. -/
def AuditLog.below (log : AuditLog) (cursor : Int) : List AuditRow :=
  log.rows.reverse.filter fun row => row.seq < cursor

def auditCursor (cursor : Int) : Int := if cursor ≤ 0 then 2 ^ 62 - 1 else cursor

def listAudit (log : AuditLog) (cursor limit : Int) : AuditPage :=
  let limit := auditPageSize limit
  let rows := (log.below (auditCursor cursor)).take (limit + 1)
  if limit < rows.length then
    let rows := rows.take limit
    ⟨rows.map AuditRow.entry, (rows.getLast?.map (·.seq)).getD 0⟩
  else ⟨rows.map AuditRow.entry, 0⟩

section
variable (sha256 : Bytes → Bytes)

/-- Appends, each with its time; invalid ones change nothing. -/
def appendEach (log : AuditLog) (inputs : List (AuditInput × Int)) : AuditLog :=
  inputs.foldl (fun log (input, time) => ((appendAudit sha256 log input time).map (·.2)).getD log) log

/-- A reader with so many requests. `schedule n` is appended after the request `n`. -/
def followAudit (limit : Int) : Nat → (Nat → List (AuditInput × Int)) → AuditLog → Int →
    Option (List AuditPage)
  | 0, _, _, _ => none
  | requests + 1, schedule, log, cursor =>
    let page := listAudit log cursor limit
    if page.nextCursor = 0 then some [page]
    else (followAudit limit requests (fun n => schedule (n + 1)) (appendEach sha256 log (schedule 0))
      page.nextCursor).map (page :: ·)

end

/-! One page. -/

variable {sha256 : Bytes → Bytes} {log : AuditLog} {cursor limit : Int}

theorem auditPageSize_pos (limit : Int) : 0 < auditPageSize limit := by
  simp only [auditPageSize, defaultAuditPage, maxAuditPage]
  split <;> split <;> omega

theorem below_sorted (log : AuditLog) (cursor : Int) :
    (log.below cursor).Pairwise fun x y => y.seq < x.seq :=
  (List.pairwise_reverse.mpr log.sorted).filter _

theorem below_last {n : Nat} {row : AuditRow} (h : ((log.below cursor).take n).getLast? = some row) :
    log.below row.seq = (log.below cursor).drop n := by
  have hmem := List.mem_of_mem_take (List.mem_of_getLast? h)
  have hlt : row.seq < cursor := of_decide_eq_true (List.mem_filter.mp hmem).2
  have hnest : log.below row.seq = (log.below cursor).filter fun x => x.seq < row.seq := by
    rw [AuditLog.below, AuditLog.below, List.filter_filter]
    refine List.filter_congr fun x _ => ?_
    simp only [← Bool.decide_and, decide_eq_decide]
    omega
  obtain ⟨init, hinit⟩ := List.getLast?_eq_some_iff.mp h
  have hsorted := below_sorted log cursor
  rw [← List.take_append_drop n (log.below cursor), hinit, List.pairwise_append] at hsorted
  rw [hnest, ← List.take_append_drop n (log.below cursor), List.filter_append, List.filter_eq_nil_iff.mpr,
    List.nil_append, List.filter_eq_self.mpr, List.take_append_drop]
  · exact fun x hx => decide_eq_true (hsorted.2.2 row (by simp) x hx)
  · rw [hinit]
    intro x hx
    rcases List.mem_append.mp hx with hx | hx
    · have := (List.pairwise_append.mp hsorted.1).2.2 x hx row (by simp)
      simp only [decide_eq_true_eq]
      omega
    · simp [List.mem_singleton.mp hx]

theorem listAudit_last (h : (log.below (auditCursor cursor)).length ≤ auditPageSize limit) :
    listAudit log cursor limit = ⟨(log.below (auditCursor cursor)).map AuditRow.entry, 0⟩ := by
  rw [listAudit, List.take_of_length_le (by omega)]
  exact if_neg (by omega)

theorem listAudit_next (h : auditPageSize limit < (log.below (auditCursor cursor)).length) :
    ∃ row, ((log.below (auditCursor cursor)).take (auditPageSize limit)).getLast? = some row ∧
      listAudit log cursor limit = ⟨((log.below (auditCursor cursor)).take (auditPageSize limit)).map
        AuditRow.entry, row.seq⟩ := by
  have hpos := auditPageSize_pos limit
  have hlen := List.length_take_of_le h.le
  obtain ⟨row, hrow⟩ := Option.ne_none_iff_exists'.mp
    (mt List.getLast?_eq_none_iff.mp (List.ne_nil_of_length_pos (hlen ▸ hpos)))
  refine ⟨row, hrow, ?_⟩
  rw [listAudit]
  dsimp only
  rw [if_pos (by rw [List.length_take]; omega), List.take_take, Nat.min_eq_left (Nat.le_succ _), hrow]
  rfl

theorem below_appendEach {row : AuditRow} (inputs : List (AuditInput × Int)) : ∀ {log : AuditLog},
    row ∈ log.rows → (appendEach sha256 log inputs).below row.seq = log.below row.seq := by
  induction inputs with
  | nil => exact fun _ => rfl
  | cons input inputs ih =>
    intro log hrow
    rw [appendEach, List.foldl_cons]
    dsimp only
    unfold appendAudit
    split
    · refine (ih (List.mem_append_left _ hrow)).trans ?_
      have hnew := (List.pairwise_append.mp (Sorted.snoc log.sorted
        (lt_nextRow sha256 _ input.1 input.2))).2.2 row hrow _ (List.mem_singleton_self _)
      rw [AuditLog.below, Option.map_some, Option.getD_some, List.reverse_concat]
      exact List.filter_cons_of_neg (by rw [decide_eq_true_eq]; exact hnew.not_gt)
    · exact ih hrow

/-! The reader. -/

/-- From any cursor on, as many requests as the rows need are enough. -/
theorem followAudit_rest (sha256 : Bytes → Bytes) (limit : Int) : ∀ (requests : Nat)
    (schedule : Nat → List (AuditInput × Int)) {log : AuditLog} (cursor : Int),
    (∀ row ∈ log.below (auditCursor cursor), 0 < row.seq) →
    (log.below (auditCursor cursor)).length ≤ (requests + 1) * auditPageSize limit →
    ∃ pages, followAudit sha256 limit (requests + 1) schedule log cursor = some pages ∧
      pages.flatMap (·.entries) = (log.below (auditCursor cursor)).map AuditRow.entry ∧
      pages.length ≤ requests + 1
  | requests, schedule, log, cursor, hpos, hlen => by
    rw [followAudit]
    by_cases hlast : (log.below (auditCursor cursor)).length ≤ auditPageSize limit
    · rw [listAudit_last hlast]
      exact ⟨_, if_pos rfl, by simp, by simp⟩
    · obtain ⟨row, hrow, hpage⟩ := listAudit_next (Nat.lt_of_not_le hlast)
      have hmem := List.mem_of_mem_take (List.mem_of_getLast? hrow)
      have hseq := hpos row hmem
      rw [hpage]
      dsimp only
      rw [if_neg hseq.ne']
      cases requests with
      | zero => omega
      | succ requests =>
        -- The next cursor asks for what the page has left, whatever was appended.
        have hrest : (appendEach sha256 log (schedule 0)).below (auditCursor row.seq) =
            (log.below (auditCursor cursor)).drop (auditPageSize limit) := by
          rw [auditCursor, if_neg hseq.not_ge, ← below_last hrow]
          exact below_appendEach _ (List.mem_reverse.mp (List.mem_filter.mp hmem).1)
        rw [Nat.succ_mul] at hlen
        obtain ⟨pages, hfollow, hentries, hcount⟩ := followAudit_rest sha256 limit requests
          (fun n => schedule (n + 1)) row.seq (fun x hx => hpos x (List.mem_of_mem_drop (hrest ▸ hx)))
          (by rw [hrest, List.length_drop]; omega)
        refine ⟨_ :: pages, by rw [hfollow]; rfl, ?_, Nat.succ_le_succ hcount⟩
        rw [List.flatMap_cons, hentries, hrest, ← List.map_append, List.take_append_drop]

/-- The number of full or begun pages, and one for an empty log. -/
def auditRequests (rows size : Nat) : Nat := max 1 ((rows + size - 1) / size)

/-- **A reader misses nothing.** The rows have numbers between 1 and the one that a request without
    a cursor begins at. Then a reader sees every row of the start once, newest first and nothing
    else, in as many requests as there are pages. -/
theorem followAudit_visits (sha256 : Bytes → Bytes) (limit : Int)
    (schedule : Nat → List (AuditInput × Int)) (log : AuditLog)
    (hseq : ∀ row ∈ log.rows, 0 < row.seq ∧ row.seq < 2 ^ 62 - 1) :
    ∃ pages, followAudit sha256 limit (auditRequests log.rows.length (auditPageSize limit)) schedule log
        0 = some pages ∧
      pages.flatMap (·.entries) = log.rows.reverse.map AuditRow.entry ∧
      ((pages.flatMap (·.entries)).map (·.seq)).Pairwise (· > ·) ∧
      pages.length ≤ auditRequests log.rows.length (auditPageSize limit) := by
  have hall : log.below (auditCursor 0) = log.rows.reverse :=
    List.filter_eq_self.mpr fun row hrow => decide_eq_true (hseq row (List.mem_reverse.mp hrow)).2
  obtain ⟨requests, hrequests⟩ : ∃ n, auditRequests log.rows.length (auditPageSize limit) = n + 1 :=
    Nat.exists_eq_add_of_le' (Nat.le_max_left ..)
  have hlen : log.rows.length ≤ (requests + 1) * auditPageSize limit := by
    have hdiv := Nat.lt_succ_of_le ((Nat.le_max_right ..).trans hrequests.le)
    rw [Nat.div_lt_iff_lt_mul (auditPageSize_pos limit), Nat.succ_mul] at hdiv
    omega
  obtain ⟨pages, hfollow, hentries, hcount⟩ := followAudit_rest sha256 limit requests schedule 0
    (fun row hrow => (hseq row (List.mem_reverse.mp (hall ▸ hrow))).1) (by rwa [hall, List.length_reverse])
  rw [hall] at hentries
  rw [hrequests]
  refine ⟨pages, hfollow, hentries, ?_, hcount⟩
  rw [hentries, List.map_map]
  exact List.pairwise_map.mpr (List.pairwise_reverse.mpr log.sorted)

namespace Demo

def row (seq : Int) : AuditRow := ⟨seq, utf8 "system", utf8 "setup.start", [], [123, 125], 1700000000, [], []⟩
def three : AuditLog := ⟨[row 1, row 2, row 3], by decide⟩
def started : AuditInput × Int := (⟨⟨.system, []⟩, utf8 "setup.start", [], .empty⟩, 1700000001)

/-- Three rows on pages of two, with a row appended after each request. -/
theorem three_visited : ∃ pages, followAudit Sha256.sum 2 2 (fun _ => [started]) three 0 = some pages ∧
    pages.flatMap (·.entries) = [(row 3).entry, (row 2).entry, (row 1).entry] ∧ pages.length ≤ 2 := by
  obtain ⟨pages, hpages, hentries, -, hcount⟩ :=
    followAudit_visits Sha256.sum 2 (fun _ => [started]) three (by decide)
  exact ⟨pages, hpages, hentries, hcount⟩

/-- The row that has the number at which a request without a cursor begins is never seen, nor is
    one below a page that ends with the row 0: the cursor 0 is none. -/
theorem last_unseen : (followAudit Sha256.sum 0 1 (fun _ => []) ⟨[row (2 ^ 62 - 1)], by simp⟩ 0).map
      (·.flatMap (·.entries)) = some [] ∧
    (followAudit Sha256.sum 1 2 (fun _ => []) ⟨[row (-1), row 0], by decide⟩ 0).map
      (·.flatMap (·.entries)) = some [(row 0).entry] := by
  decide +kernel

end Demo

end Sesame.Selfhost

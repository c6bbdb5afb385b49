import SesameServer.Selfhost.AuditLog

/- What `VerifyAudit` says of a log.

   1. `appended_log_verifies` — a log that was only appended to is reported OK exactly if in
      the details of every entry the keys stay in order with U+FFFD for stray bytes; the count
      and the head are right in any case.
   2. `same_head_same_rows` — two logs that are reported OK with one head have the same
      rows, except for rows numbered below 1, which the scan does not read. -/
namespace Sesame.Selfhost
open Json

variable {sha256 : Bytes → Bytes}

/-! Rows as they are verified. -/

/-- What verification hashes for a row; `none` if the details cannot be read. -/
def AuditRow.message (row : AuditRow) : Option Bytes :=
  (unmarshal row.detail).map fun detail =>
    auditMessage row.prevHash (auditCanonical row.actor row.action row.target detail row.time)

def AuditRow.Intact (sha256 : Bytes → Bytes) (row : AuditRow) : Prop :=
  ∃ message ∈ row.message, row.hash = sha256 message

/-- Rows numbered from 1, each naming the hash of the one before it. -/
inductive Ordered : List AuditRow → Prop
  | nil : Ordered []
  | snoc {rows : List AuditRow} {row : AuditRow} (before : Ordered rows)
      (numbered : row.seq = rows.length + 1)
      (linked : row.prevHash = HashChain.tip auditGenesisHash (·.hash) rows) :
      Ordered (rows ++ [row])

theorem intact_iff {row : AuditRow} : row.Intact sha256 ↔
    ∃ detail, unmarshal row.detail = some detail ∧ row.hash = auditHash sha256 row.prevHash
      (auditCanonical row.actor row.action row.target detail row.time) := by
  unfold AuditRow.Intact AuditRow.message
  constructor
  · rintro ⟨message, hmessage, h⟩
    obtain ⟨detail, hdetail, rfl⟩ := Option.map_eq_some_iff.mp hmessage
    exact ⟨detail, hdetail, h⟩
  · rintro ⟨detail, hdetail, h⟩
    exact ⟨_, Option.map_eq_some_iff.mpr ⟨detail, hdetail, rfl⟩, h⟩

variable {rows : List AuditRow} {log : AuditLog}

theorem verified_iff : Verified sha256 rows ↔ Ordered rows ∧ ∀ row ∈ rows, row.Intact sha256 := by
  constructor
  · intro h
    refine ⟨?_, fun row hrow => intact_iff.mpr (h.hashed hrow)⟩
    induction h with
    | nil => exact .nil
    | snoc _ fits ih =>
      obtain ⟨hseq, hprev, -⟩ := auditRowBreak_eq_none.mp fits
      exact .snoc ih hseq hprev
  · rintro ⟨ordered, intact⟩
    induction ordered with
    | nil => exact .nil
    | snoc _ numbered linked ih =>
      refine .snoc (ih fun row hrow => intact row (List.mem_append_left _ hrow)) ?_
      exact auditRowBreak_eq_none.mpr ⟨numbered, linked, intact_iff.mp (intact _ (by simp))⟩

theorem Ordered.seq_pos (h : Ordered rows) : ∀ row ∈ rows, 1 ≤ row.seq := by
  induction h with
  | nil => simp
  | snoc _ numbered _ ih =>
    intro row hrow
    rcases List.mem_append.mp hrow with hrow | hrow
    · exact ih row hrow
    · rw [List.mem_singleton.mp hrow, numbered]
      omega

theorem Ordered.last_seq (h : Ordered rows) : (rows.getLast?.map (·.seq)).getD 0 = rows.length := by
  cases h with
  | nil => rfl
  | snoc _ numbered _ => simp [numbered]

theorem Ordered.visible (h : Ordered log.rows) : log.visible = log.rows := by
  refine List.filter_eq_self.mpr fun row hrow => ?_
  simpa using h.seq_pos row hrow

/-! Appending. -/

/-- `AppendAudit` for one input after the other, each at its time. -/
def appendAll (sha256 : Bytes → Bytes) (log : AuditLog) :
    List (AuditInput × Int) → Option (List AuditEntry × AuditLog)
  | [] => some ([], log)
  | (input, time) :: rest => do
    let (entry, log) ← appendAudit sha256 log input time
    let (entries, log) ← appendAll sha256 log rest
    some (entry :: entries, log)

/-- What was hashed when the input was appended after a hash. -/
def AuditInput.message (input : AuditInput) (time : Int) (previous : Bytes) : Bytes :=
  auditMessage previous
    (auditCanonical input.actor.string input.action input.target input.detail time)

/-- The row that an input became. -/
structure Recorded (sha256 : Bytes → Bytes) (x : AuditInput × Int) (row : AuditRow) : Prop where
  actor : row.actor = x.1.actor.string
  action : row.action = x.1.action
  target : row.target = x.1.target
  detail : row.detail = marshal x.1.detail
  time : row.time = x.2
  hash : row.hash = sha256 (x.1.message x.2 row.prevHash)

/-- The keys of the details stay in order and apart with U+FFFD for stray bytes, or else two
    messages with one hash hide that they do not. -/
def ReadsBack (sha256 : Bytes → Bytes) (x : AuditInput × Int) (row : AuditRow) : Prop :=
  x.1.detail.StaysSorted ∨
    ∃ message ∈ row.message, message ≠ x.1.message x.2 row.prevHash ∧
      sha256 message = sha256 (x.1.message x.2 row.prevHash)

theorem recorded_nextRow (last : Option AuditRow) (input : AuditInput) (time : Int) :
    Recorded sha256 (input, time) (nextRow sha256 last input time) :=
  ⟨rfl, rfl, rfl, rfl, rfl, rfl⟩

/-- A recorded row is intact exactly if its details can be read back. -/
theorem Recorded.intact_iff_readsBack {x : AuditInput × Int} {row : AuditRow}
    (h : Recorded sha256 x row) : row.Intact sha256 ↔ ReadsBack sha256 x row := by
  have hmessage : row.message = (unmarshal (marshal x.1.detail)).map fun detail =>
      auditMessage row.prevHash
        (auditCanonical x.1.actor.string x.1.action x.1.target detail x.2) := by
    unfold AuditRow.message
    rw [h.actor, h.action, h.target, h.detail, h.time]
  constructor
  · rintro ⟨message, hrow, hhash⟩
    by_cases heq : message = x.1.message x.2 row.prevHash
    · -- the same bytes were hashed again, so the details read are those written, cleaned
      left
      rw [hmessage] at hrow
      obtain ⟨detail, hdetail, hread⟩ := Option.map_eq_some_iff.mp hrow
      have hcanonical := (auditMessage_inj rfl (hread.trans heq)).2
      have hentries := (canonical_inj hcanonical).2.2.2.1
      rw [map_cleanEntry (unmarshal_valid hdetail)] at hentries
      unfold StringMap.StaysSorted
      rw [← hentries]
      exact detail.sorted
    · exact .inr ⟨message, hrow, heq, hhash.symm.trans h.hash⟩
  · rintro (hsorted | ⟨message, hrow, -, hhash⟩)
    · refine ⟨x.1.message x.2 row.prevHash, ?_, h.hash⟩
      rw [hmessage, unmarshal_sorted hsorted, Option.map_some, canonical_clean rfl]
      rfl
    · exact ⟨message, hrow, h.hash.trans hhash.symm⟩

theorem appendAll_spec (ordered : Ordered log.rows) {inputs : List (AuditInput × Int)}
    (accepted : ∀ x ∈ inputs, validAuditInput x.1 = true) :
    ∃ entries log' rows, appendAll sha256 log inputs = some (entries, log') ∧
      log'.rows = log.rows ++ rows ∧ Ordered log'.rows ∧
      List.Forall₂ (Recorded sha256) inputs rows ∧
      entries.map (·.hash) = rows.map fun row => Encoding.hex row.hash := by
  induction inputs generalizing log with
  | nil => exact ⟨[], log, [], rfl, (List.append_nil _).symm, ordered, .nil, rfl⟩
  | cons x inputs ih =>
    obtain ⟨input, time⟩ := x
    set row := nextRow sha256 log.rows.getLast? input time with hrow
    have hinput : validAuditInput input = true := accepted _ List.mem_cons_self
    have hordered : Ordered (log.rows ++ [row]) := by
      refine .snoc ordered ?_ rfl
      rw [← ordered.last_seq]
      rfl
    obtain ⟨entry, next, happend, hentry, hnext⟩ : ∃ entry next,
        appendAudit sha256 log input time = some (entry, next) ∧
        entry.hash = Encoding.hex row.hash ∧ next.rows = log.rows ++ [row] := by
      unfold appendAudit
      rw [if_pos hinput]
      exact ⟨_, _, rfl, rfl, rfl⟩
    rw [← hnext] at hordered
    obtain ⟨entries, log', rows, hrest, hrows, hordered', hrecorded, hhashes⟩ :=
      ih hordered fun x hx => accepted x (List.mem_cons_of_mem _ hx)
    refine ⟨entry :: entries, log', row :: rows, ?_, ?_, hordered', ?_, ?_⟩
    · simp [appendAll, happend, hrest]
    · rw [hrows, hnext, List.append_assoc]
      rfl
    · exact .cons (recorded_nextRow _ input time) hrecorded
    · rw [List.map_cons, List.map_cons, hentry, hhashes]

/-- **An appended log verifies**: the count and the head are those of the appended entries,
    and the log is OK exactly if the keys of every entry's details stay in order with U+FFFD for
    stray bytes, as far as the hash tells different bytes apart. -/
theorem appended_log_verifies (sha256 : Bytes → Bytes) (inputs : List (AuditInput × Int))
    (accepted : ∀ x ∈ inputs, validAuditInput x.1 = true) :
    ∃ entries log, appendAll sha256 .empty inputs = some (entries, log) ∧
      entries.length = inputs.length ∧
      (verifyAudit sha256 log).rows = inputs.length ∧
      (∀ last ∈ entries.getLast?, (verifyAudit sha256 log).headHash = last.hash) ∧
      ((verifyAudit sha256 log).ok = true ↔
        ∀ x ∈ inputs.zip log.rows, ReadsBack sha256 x.1 x.2) := by
  obtain ⟨entries, log, rows, happend, hrows, hordered, hrecorded, hhashes⟩ :=
    @appendAll_spec sha256 .empty .nil inputs accepted
  obtain ⟨hok, hcount, hhead⟩ := @verifyAudit_spec sha256 log
  rw [hordered.visible] at hok hcount hhead
  rw [AuditLog.empty, List.nil_append] at hrows
  rw [hrows] at hok hcount hhead hordered
  have hlength : inputs.length = rows.length := hrecorded.length_eq
  refine ⟨entries, log, happend, ?_, hcount.trans hlength.symm, fun last hlast => ?_, ?_⟩
  · rw [hlength, ← List.length_map (·.hash), hhashes, List.length_map]
  · have : (entries.map (·.hash)).getLast? = some last.hash := by
      rw [List.getLast?_map, hlast]
      rfl
    rw [hhashes, List.getLast?_map] at this
    obtain ⟨row, hrow, hhash⟩ := Option.map_eq_some_iff.mp this
    rw [hhead, HashChain.tip, hrow]
    exact hhash
  · rw [hok, verified_iff, hrows]
    constructor
    · rintro ⟨-, intact⟩ ⟨x, row⟩ hx
      obtain ⟨-, hrow⟩ := List.of_mem_zip hx
      exact ((List.forall₂_iff_zip.mp hrecorded).2 hx).intact_iff_readsBack.mp (intact row hrow)
    · intro h
      refine ⟨hordered, fun row hrow => ?_⟩
      obtain ⟨i, hi, rfl⟩ := List.getElem_of_mem hrow
      have hmem : (inputs[i], rows[i]) ∈ inputs.zip rows :=
        List.mem_iff_getElem.mpr ⟨i, by simp [hi, hlength], by simp⟩
      exact ((List.forall₂_iff_zip.mp hrecorded).2 hmem).intact_iff_readsBack.mpr (h _ hmem)

namespace Demo

def note (value : Bytes) : StringMap := StringMap.empty.insert (utf8 "note") value

def signIn (value : Bytes) : AuditInput :=
  ⟨⟨.owner, utf8 "o1"⟩, utf8 "owner.login", utf8 "o1", note value⟩

/-- The second entry has bytes in the action and in a detail that are no UTF-8. -/
def plainInputs : List (AuditInput × Int) :=
  [(signIn (utf8 "laptop"), 1700000000),
    (⟨⟨.system, []⟩, [0xff], [], (note [0xfe]).insert [0xff] []⟩, -1)]

theorem plainInputs_verify : ∃ entries log,
    appendAll Sha256.sum .empty plainInputs = some (entries, log) ∧ entries.length = 2 ∧
      (verifyAudit Sha256.sum log).rows = 2 ∧ (verifyAudit Sha256.sum log).ok = true := by
  obtain ⟨entries, log, happend, hlength, hrows, -, hok⟩ :=
    appended_log_verifies Sha256.sum plainInputs (by decide +kernel)
  refine ⟨entries, log, happend, hlength, hrows, hok.mpr fun x hx => .inl ?_⟩
  have hsorted : ∀ y ∈ plainInputs, y.1.detail.StaysSorted := by decide +kernel
  exact hsorted x.1 (List.of_mem_zip hx).1

/-- Two keys that are no UTF-8, and one character when they are read. -/
def garbled : AuditInput :=
  { signIn [] with detail := (StringMap.empty.insert [0xff] (utf8 "a")).insert [0xfe] (utf8 "b") }

/-- The input is accepted and appended, and nobody touches the log, yet it does not verify. -/
theorem garbled_log_breaks : validAuditInput garbled = true ∧
    (appendAll Sha256.sum .empty [(garbled, 1700000000)]).map
        (fun appended => (verifyAudit Sha256.sum appended.2).firstBreak) =
      some (some ⟨1, "row hash does not match its content"⟩) := by
  decide +kernel

end Demo

/-! Tampering. -/

/-- A row as a reader of the log sees it, with its details parsed. -/
structure RowView where
  seq : Int
  actor : Bytes
  action : Bytes
  target : Bytes
  detail : Option StringMap
  time : Int
  prevHash : Bytes
  hash : Bytes
  deriving DecidableEq

def AuditRow.view (row : AuditRow) : RowView :=
  ⟨row.seq, row.actor, row.action, row.target, unmarshal row.detail, row.time, row.prevHash,
    row.hash⟩

def AuditLog.view (log : AuditLog) : List RowView := log.rows.map AuditRow.view

/-- The rows that no scan reads. -/
def AuditLog.hidden (log : AuditLog) : List AuditRow := log.rows.filter fun row => row.seq < 1

def AuditLog.messages (log : AuditLog) : List Bytes := log.visible.filterMap AuditRow.message

/-- The texts are UTF-8 and the time is of the years 1970 to 9999. -/
structure AuditRow.Plain (row : AuditRow) : Prop where
  actor : Utf8.Valid row.actor
  action : Utf8.Valid row.action
  target : Utf8.Valid row.target
  detail : Utf8.Valid row.detail
  time : Calendar.InRange row.time

/-- What is asked of the hash, and only for the messages at hand: they have different
    hashes, and none has the hash that a chain starts from. -/
structure Separates (sha256 : Bytes → Bytes) (messages : List Bytes) : Prop where
  size : ∀ message, (sha256 message).length = 32
  inj : ∀ m ∈ messages, ∀ m' ∈ messages, sha256 m = sha256 m' → m = m'
  fresh : ∀ m ∈ messages, sha256 m ≠ auditGenesisHash

theorem rows_eq (log : AuditLog) : log.rows = log.hidden ++ log.visible :=
  Sorted.split log.sorted 1

def AuditRow.content (row : AuditRow) : RowView := { row.view with seq := 0 }

theorem prevHash_size (verified : Verified sha256 rows)
    (size : ∀ message, (sha256 message).length = 32) : ∀ row ∈ rows, row.prevHash.length = 32 := by
  induction verified with
  | nil => simp
  | @snoc rows row before fits ih =>
    intro x hx
    rcases List.mem_append.mp hx with hx | hx
    · exact ih x hx
    · rw [List.mem_singleton.mp hx, (auditRowBreak_eq_none.mp fits).2.1]
      cases hlast : rows.getLast? with
      | none =>
        rw [HashChain.tip, hlast]
        rfl
      | some last =>
        obtain ⟨detail, -, hhash⟩ := before.hashed (List.mem_of_getLast? hlast)
        rw [HashChain.tip, hlast]
        change last.hash.length = 32
        rw [hhash]
        exact size _

theorem content_of_hash {messages : List Bytes} (separates : Separates sha256 messages)
    {x y : AuditRow} (hx : x.Intact sha256) (hy : y.Intact sha256)
    (memx : ∀ m ∈ x.message, m ∈ messages) (memy : ∀ m ∈ y.message, m ∈ messages)
    (plain : x.Plain) (plain' : y.Plain) (size : x.prevHash.length = y.prevHash.length)
    (h : x.hash = y.hash) : x.content = y.content := by
  obtain ⟨m, hm, hmhash⟩ := hx
  obtain ⟨m', hm', hmhash'⟩ := hy
  have heq : m = m' := separates.inj m (memx m hm) m' (memy m' hm')
    (hmhash.symm.trans (h.trans hmhash'))
  obtain ⟨detail, hdetail, rfl⟩ := Option.map_eq_some_iff.mp hm
  obtain ⟨detail', hdetail', rfl⟩ := Option.map_eq_some_iff.mp hm'
  obtain ⟨hprev, hcanonical⟩ := auditMessage_inj size heq
  obtain ⟨hactor, haction, htarget, hentries, htime⟩ := canonical_inj hcanonical
  -- the texts of both rows are UTF-8
  rw [clean_of_valid plain.actor, clean_of_valid plain'.actor] at hactor
  rw [clean_of_valid plain.action, clean_of_valid plain'.action] at haction
  rw [clean_of_valid plain.target, clean_of_valid plain'.target] at htarget
  rw [map_cleanEntry (unmarshal_valid hdetail), map_cleanEntry (unmarshal_valid hdetail')] at hentries
  have hdet := StringMap.ext hentries
  have htime := Calendar.rfc3339_inj plain.time plain'.time htime
  unfold AuditRow.content AuditRow.view
  rw [hactor, haction, htarget, hdetail, hdetail', hdet, htime, hprev, h]

theorem map_view (rows : List AuditRow) : rows.map AuditRow.view =
    List.zipWith (fun seq content => { content with seq := seq })
      (rows.map (·.seq)) (rows.map AuditRow.content) := by
  rw [List.zipWith_map, List.zipWith_self]
  rfl

theorem hidden_map_view (log : AuditLog) :
    log.hidden.map AuditRow.view = log.view.filter fun row => row.seq < 1 := by
  unfold AuditLog.view AuditLog.hidden
  rw [List.filter_map]
  rfl

/-- **One head, one log**: two logs that verify with the same head have the same rows that
    the scan reads, and so the same rows throughout exactly if they agree below 1. -/
theorem same_head_same_rows {log log' : AuditLog}
    (separates : Separates sha256 (log.messages ++ log'.messages))
    (plain : ∀ row ∈ log.rows, row.Plain) (plain' : ∀ row ∈ log'.rows, row.Plain)
    (ok : (verifyAudit sha256 log).ok = true) (ok' : (verifyAudit sha256 log').ok = true)
    (head : (verifyAudit sha256 log).headHash = (verifyAudit sha256 log').headHash) :
    log.visible.map AuditRow.view = log'.visible.map AuditRow.view ∧
      (log.view = log'.view ↔
        log.hidden.map AuditRow.view = log'.hidden.map AuditRow.view) := by
  obtain ⟨hok, -, hhead⟩ := @verifyAudit_spec sha256 log
  obtain ⟨hok', -, hhead'⟩ := @verifyAudit_spec sha256 log'
  have verified := hok.mp ok
  have verified' := hok'.mp ok'
  have htip := Encoding.hex_inj (hhead.symm.trans (head.trans hhead'))
  have intact := (verified_iff.mp verified).2
  have intact' := (verified_iff.mp verified').2
  have mem : ∀ row ∈ log.visible, ∀ m ∈ row.message, m ∈ log.messages ++ log'.messages :=
    fun row hrow m hm => List.mem_append_left _ (List.mem_filterMap.mpr ⟨row, hrow, hm⟩)
  have mem' : ∀ row ∈ log'.visible, ∀ m ∈ row.message, m ∈ log.messages ++ log'.messages :=
    fun row hrow m hm => List.mem_append_right _ (List.mem_filterMap.mpr ⟨row, hrow, hm⟩)
  have size := prevHash_size verified separates.size
  have size' := prevHash_size verified' separates.size
  -- the hashes determine the contents, from the last row back to the first
  have hcontent : log.visible.map AuditRow.content = log'.visible.map AuditRow.content := by
    refine verified.chained.unique verified'.chained ?_ ?_ ?_ htip
    · intro x hx y hy h
      have hxy := content_of_hash separates (intact x hx) (intact' y hy) (mem x hx) (mem' y hy)
        (plain x (List.mem_of_mem_filter hx)) (plain' y (List.mem_of_mem_filter hy))
        ((size x hx).trans (size' y hy).symm) h
      exact ⟨hxy, congrArg RowView.prevHash hxy⟩
    · intro x hx h
      obtain ⟨m, hm, hmhash⟩ := intact x hx
      exact separates.fresh m (mem x hx m hm) (hmhash.symm.trans h)
    · intro y hy h
      obtain ⟨m, hm, hmhash⟩ := intact' y hy
      exact separates.fresh m (mem' y hy m hm) (hmhash.symm.trans h)
  have hlength : log.visible.length = log'.visible.length := by
    simpa using congrArg List.length hcontent
  have hvisible : log.visible.map AuditRow.view = log'.visible.map AuditRow.view := by
    rw [map_view, map_view, hcontent, verified.seq, verified'.seq, hlength]
  refine ⟨hvisible, fun h => ?_, fun h => ?_⟩
  · rw [hidden_map_view, hidden_map_view, h]
  · unfold AuditLog.view
    rw [rows_eq log, rows_eq log', List.map_append, List.map_append, h, hvisible]

namespace Demo

def firstRow : AuditRow := nextRow Sha256.sum none (signIn (utf8 "laptop")) 1700000000

/-- A row of somebody's own, with no hash that fits. -/
def forgedRow : AuditRow :=
  ⟨0, utf8 "owner:o2", utf8 "owner.remove", utf8 "o1", utf8 "null", 1600000000, [], []⟩

def genuineLog : AuditLog := ⟨[firstRow], List.pairwise_singleton _ _⟩

def forgedLog : AuditLog := ⟨[forgedRow, firstRow], List.pairwise_pair.mpr (by decide)⟩

/-- The details written with blanks: the same map. -/
def respeltLog : AuditLog :=
  ⟨[{ firstRow with detail := utf8 "\x7b \"note\": \"laptop\" \x7d" }],
    List.pairwise_singleton _ _⟩

instance (row : AuditRow) : Decidable row.Plain :=
  decidable_of_iff (Utf8.Valid row.actor ∧ Utf8.Valid row.action ∧ Utf8.Valid row.target ∧
      Utf8.Valid row.detail ∧ Calendar.InRange row.time)
    ⟨fun ⟨h₁, h₂, h₃, h₄, h₅⟩ => ⟨h₁, h₂, h₃, h₄, h₅⟩, fun ⟨h₁, h₂, h₃, h₄, h₅⟩ =>
      ⟨h₁, h₂, h₃, h₄, h₅⟩⟩

theorem separates_genuine (h : log.messages = genuineLog.messages) :
    Separates Sha256.sum (genuineLog.messages ++ log.messages) := by
  obtain ⟨m, hm⟩ : ∃ m, genuineLog.messages = [m] :=
    List.length_eq_one_iff.mp (by decide +kernel)
  have fresh : ∀ m ∈ genuineLog.messages, Sha256.sum m ≠ auditGenesisHash := by decide +kernel
  rw [h]
  rw [hm] at fresh ⊢
  refine ⟨Sha256.size_sum, ?_, ?_⟩
  · simp
  · simpa using fresh

theorem genuine_ok : (verifyAudit Sha256.sum genuineLog).ok = true := by decide +kernel

theorem genuine_plain : ∀ row ∈ genuineLog.rows, row.Plain := by decide +kernel

theorem respelt_view : genuineLog.rows ≠ respeltLog.rows ∧ genuineLog.view = respeltLog.view := by
  have hdetail : firstRow.detail ≠ utf8 "\x7b \"note\": \"laptop\" \x7d" := by decide +kernel
  have hhead : (verifyAudit Sha256.sum genuineLog).headHash =
      (verifyAudit Sha256.sum respeltLog).headHash :=
    (verifyAudit_spec genuineLog).2.2.trans (verifyAudit_spec respeltLog).2.2.symm
  refine ⟨fun h => hdetail (congrArg AuditRow.detail (List.cons.inj h).1), ?_⟩
  exact (same_head_same_rows (separates_genuine (by decide +kernel)) genuine_plain
    (by decide +kernel) genuine_ok (by decide +kernel) hhead).2.mpr rfl

/-- A row in front of the first one is not noticed. -/
theorem forged_row_unnoticed : Separates Sha256.sum (genuineLog.messages ++ forgedLog.messages) ∧
    (∀ row ∈ genuineLog.rows, row.Plain) ∧ (∀ row ∈ forgedLog.rows, row.Plain) ∧
    (verifyAudit Sha256.sum genuineLog).ok = true ∧ (verifyAudit Sha256.sum forgedLog).ok = true ∧
    (verifyAudit Sha256.sum genuineLog).headHash = (verifyAudit Sha256.sum forgedLog).headHash ∧
    genuineLog.rows.length = 1 ∧ forgedLog.rows.length = 2 := by
  -- the scan reads the same rows of both
  have hsame : verifyAudit Sha256.sum forgedLog = verifyAudit Sha256.sum genuineLog := rfl
  refine ⟨separates_genuine rfl, genuine_plain, by decide +kernel, genuine_ok, ?_, ?_, rfl, rfl⟩
  · rw [hsame]
    exact genuine_ok
  · rw [hsame]

end Demo

end Sesame.Selfhost

import SesameServer.Lib.Calendar
import SesameServer.Lib.HashChain
import SesameServer.Lib.Json
import SesameServer.Sync.Request

/- The audit chain of the admin dashboard and its signed checkpoints
   (`internal/admin/audit_chain.go`, table `sesame_admin_audit_log`).

   1. `verifyAuditChain` — each row names the hash of the one before it and has the hash of
      that hash and its own text. `verifyRows_verified` says what success means.
   2. `draftCheckpoint`, `verifyAuditCheckpoints` — the head of the chain is signed from
      time to time, and each checkpoint is compared with the row it covers.
   3. `checkpointMessage_inj` — a signed message tells the number and the hash. -/
namespace Sesame.Admin
open Json Syncproto

/-! Tables. -/

/-- The columns of an audit row that the hash covers; times in microseconds. -/
structure AuditColumns where
  chainSeq : Int
  id : Int
  adminID : Option Bytes
  adminEmail : Bytes
  action : Bytes
  targetType : Bytes
  targetID : Option Bytes
  detail : Bytes
  ipHash : Bytes
  createdAt : Int
  deriving DecidableEq

structure ChainRow where
  columns : AuditColumns
  prevHash : Bytes
  hash : Bytes
  deriving DecidableEq

def ChainRow.seq (row : ChainRow) : Int := row.columns.chainSeq

/-- `sesame_admin_audit_log` in the order of `chain_seq`, which is unique. -/
structure ChainTable where
  rows : List ChainRow
  sorted : rows.Pairwise fun x y => x.seq < y.seq

/-- What `CheckpointAuditChain` writes. -/
structure CheckpointDraft where
  coverSeq : Int
  chainHash : Bytes
  keyID : Bytes
  signedAt : Int
  signature : Bytes
  deriving DecidableEq

structure AuditCheckpoint extends CheckpointDraft where
  id : Int
  deriving DecidableEq

/-- `sesame_admin_audit_checkpoints` in the order of `cover_seq`, which is unique. -/
structure CheckpointTable where
  rows : List AuditCheckpoint
  sorted : rows.Pairwise fun x y => x.coverSeq < y.coverSeq

def sha256Size : Nat := 32
def auditChainGenesisHash : Bytes := List.replicate sha256Size 0

/-! The chain. -/

structure AuditChainBreak where
  seq : Int
  id : Int
  reason : String
  deriving DecidableEq

structure AuditChainReport where
  verified : Bool
  rows : Nat
  headSeq : Int
  headID : Int
  headHash : Bytes
  firstBreak : Option AuditChainBreak
  deriving DecidableEq

section
variable (sha256 : Bytes → Bytes)
-- the text that Postgres gives `jsonb_build_array` of the columns
variable (canonicalRow : AuditColumns → Bytes)

def ChainRow.message (row : ChainRow) : Bytes := row.prevHash ++ canonicalRow row.columns

def chainRowBreak (expectedPrev : Bytes) (row : ChainRow) : Option String :=
  if row.prevHash.length ≠ sha256Size ∨ row.hash.length ≠ sha256Size then
    some "audit row has no chain hash"
  else if row.prevHash ≠ expectedPrev then some "audit row does not link to the previous row"
  else if row.hash ≠ sha256 (expectedPrev ++ canonicalRow row.columns) then
    some "audit row hash does not match its contents"
  else none

def verifyRows (report : AuditChainReport) (expectedPrev : Bytes) :
    List ChainRow → AuditChainReport
  | [] => { report with verified := true }
  | row :: rows =>
    let report := { report with rows := report.rows + 1 }
    match chainRowBreak sha256 canonicalRow expectedPrev row with
    | some reason => { report with firstBreak := some ⟨row.seq, row.columns.id, reason⟩ }
    | none =>
      verifyRows { report with headSeq := row.seq, headID := row.columns.id, headHash := row.hash }
        row.hash rows

def verifyAuditChain (table : ChainTable) : AuditChainReport :=
  verifyRows sha256 canonicalRow ⟨false, 0, 0, 0, [], none⟩ auditChainGenesisHash table.rows

structure ChainRow.Intact (row : ChainRow) : Prop where
  size : row.prevHash.length = sha256Size
  hash : row.hash = sha256 (row.message canonicalRow)

/-- Rows from a hash on: each names the hash before it. -/
inductive Linked : Bytes → List ChainRow → Prop
  | nil (prev : Bytes) : Linked prev []
  | cons {prev : Bytes} {row : ChainRow} {rows : List ChainRow} (linked : row.prevHash = prev)
      (rest : Linked row.hash rows) : Linked prev (row :: rows)

variable {sha256 canonicalRow}

theorem chainRowBreak_eq_none {expectedPrev : Bytes} {row : ChainRow}
    (h : chainRowBreak sha256 canonicalRow expectedPrev row = none) :
    row.prevHash = expectedPrev ∧ row.Intact sha256 canonicalRow := by
  unfold chainRowBreak at h
  split at h
  · cases h
  · next hsize =>
    split at h
    · cases h
    · next hprev =>
      split at h
      · cases h
      · next hhash =>
        rw [not_or, not_not, not_not] at hsize
        rw [not_not] at hprev hhash
        refine ⟨hprev, hsize.1, ?_⟩
        rw [hhash, ChainRow.message, hprev]

theorem verifyRows_verified {rows : List ChainRow} {report : AuditChainReport} {prev : Bytes}
    (start : report.verified = false)
    (h : (verifyRows sha256 canonicalRow report prev rows).verified = true) :
    Linked prev rows ∧ ∀ row ∈ rows, row.Intact sha256 canonicalRow := by
  induction rows generalizing report prev with
  | nil => exact ⟨.nil prev, by simp⟩
  | cons row rows ih =>
    unfold verifyRows at h
    dsimp only at h
    split at h
    · exact absurd (start.symm.trans h) (by decide)
    · next hbreak =>
      obtain ⟨hprev, hrow⟩ := chainRowBreak_eq_none hbreak
      obtain ⟨hlinked, hrows⟩ := ih (by exact start) h
      refine ⟨.cons hprev hlinked, fun x hx => ?_⟩
      rcases List.mem_cons.mp hx with rfl | hx
      · exact hrow
      · exact hrows x hx

/-- Linked rows are a chain, after the rows that led to them. -/
theorem Linked.chained {prev : Bytes} {rows before : List ChainRow} (h : Linked prev rows)
    (chain : HashChain.Chained auditChainGenesisHash (·.prevHash) (·.hash) before)
    (htip : HashChain.tip auditChainGenesisHash (·.hash) before = prev) :
    HashChain.Chained auditChainGenesisHash (·.prevHash) (·.hash) (before ++ rows) := by
  induction h generalizing before with
  | nil prev => rwa [List.append_nil]
  | @cons prev row rows linked _ ih =>
    rw [List.append_cons]
    exact ih (.snoc chain (linked.trans htip.symm)) (HashChain.tip_snoc _ _ _ _)

/-- The rows of a verified table make a chain, and so do the first of them. -/
theorem verifyAuditChain_verified {table : ChainTable}
    (h : (verifyAuditChain sha256 canonicalRow table).verified = true) :
    HashChain.Chained auditChainGenesisHash (·.prevHash) (·.hash) table.rows ∧
      ∀ row ∈ table.rows, row.Intact sha256 canonicalRow := by
  obtain ⟨linked, intact⟩ := verifyRows_verified rfl h
  exact ⟨linked.chained .nil rfl, intact⟩

end

/-! Checkpoints. -/

def auditCheckpointVersion : Bytes := utf8 "sesame-admin-audit-checkpoint-v1"

/-- `Format("2006-01-02T15:04:05.000000Z")` of microseconds. -/
def checkpointTime (micros : Int) : Bytes :=
  (Calendar.rfc3339 (micros / 1000000)).dropLast ++
    46 :: Calendar.padded 6 (micros % 1000000).toNat ++ [90]

def checkpointPieces (coverSeq : Int) (chainHash keyID : Bytes) (signedAt : Int) :
    List Utf8.Piece :=
  .ascii 123 :: (label "version" ++ (quote auditCheckpointVersion ++ (comma :: label "coverSeq" ++
    ((Encoding.decimalInt coverSeq).map .ascii ++ (comma :: (label "chainHash" ++
      (quote (Encoding.hex chainHash) ++ (comma :: label "keyId" ++ (quote keyID ++
        (comma :: label "signedAt" ++ (quote (checkpointTime signedAt) ++ [.ascii 125])))))))))))

/-- `json.Marshal` of the payload. -/
def auditCheckpointMessage (coverSeq : Int) (chainHash keyID : Bytes) (signedAt : Int) : Bytes :=
  (checkpointPieces coverSeq chainHash keyID signedAt).flatMap Utf8.Piece.bytes

def CheckpointDraft.message (c : CheckpointDraft) : Bytes :=
  auditCheckpointMessage c.coverSeq c.chainHash c.keyID c.signedAt

def ed25519PrivateKeySize : Nat := 64

/-- `CheckpointAuditChain` up to the signature: the head is read from one table, the
    checkpoints that exist from the other; `none` if there is nothing to sign. -/
def draftCheckpoint (crypto : Crypto) (audit : ChainTable) (checkpoints : CheckpointTable)
    (signingKey keyID : Bytes) (now : Int) : Except String (Option CheckpointDraft) :=
  if signingKey.length ≠ ed25519PrivateKeySize then
    .error "audit checkpoint signing key is invalid"
  else
    let keyID := Utf8.trimSpace keyID
    if keyID = [] then .error "audit checkpoint key id is required"
    else match audit.rows.getLast? with
      | none => .ok none
      | some head =>
        if head.hash.length ≠ sha256Size then .error "audit chain head has no valid hash"
        else if head.seq ≤ (checkpoints.rows.getLast?.map (·.coverSeq)).getD 0 then .ok none
        else .ok (some ⟨head.seq, head.hash, keyID, now,
          crypto.sign signingKey (auditCheckpointMessage head.seq head.hash keyID now)⟩)

structure AuditCheckpointReport where
  verified : Bool
  checkpoints : Nat
  latest : Option AuditCheckpoint
  firstBreak : String
  deriving DecidableEq

/-- `checkpoint %d` and what is wrong with it. -/
def checkpointBreak (coverSeq : Int) (reason : String) : String :=
  "checkpoint " ++ toString coverSeq ++ " " ++ reason

def verifyEach (crypto : Crypto) (audit : ChainTable) (publicKey : Bytes)
    (report : AuditCheckpointReport) : List AuditCheckpoint → AuditCheckpointReport
  | [] => { report with verified := true }
  | c :: rest =>
    if !crypto.verify publicKey c.message c.signature then
      { report with firstBreak := checkpointBreak c.coverSeq "signature does not match" }
    else match audit.rows.find? fun row => row.seq == c.coverSeq with
      | none =>
        { report with firstBreak := checkpointBreak c.coverSeq "covers a missing audit row" }
      | some row =>
        if row.hash ≠ c.chainHash then
          { report with firstBreak := checkpointBreak c.coverSeq "does not match the audit row" }
        else verifyEach crypto audit publicKey { report with latest := some c } rest

def verifyAuditCheckpoints (crypto : Crypto) (audit : ChainTable) (checkpoints : CheckpointTable)
    (publicKey keyID : Bytes) : Except String AuditCheckpointReport :=
  if publicKey.length ≠ ed25519PublicKeyBytes then
    .error "audit checkpoint verification key is invalid"
  else
    let rows := checkpoints.rows.filter fun c => c.keyID == Utf8.trimSpace keyID
    .ok (verifyEach crypto audit publicKey ⟨false, rows.length, none, ""⟩ rows)

variable {crypto : Crypto} {audit : ChainTable} {publicKey : Bytes} {report : AuditCheckpointReport}

theorem verifyEach_cons {c : AuditCheckpoint} {rest : List AuditCheckpoint}
    {row : ChainRow} (signed : crypto.verify publicKey c.message c.signature = true)
    (found : audit.rows.find? (fun row => row.seq == c.coverSeq) = some row)
    (hash : row.hash = c.chainHash) : verifyEach crypto audit publicKey report (c :: rest) =
      verifyEach crypto audit publicKey { report with latest := some c } rest := by
  conv_lhs => unfold verifyEach
  simp [signed, found, hash]

/-- A checkpoint that was found good. -/
structure Covers (crypto : Crypto) (audit : ChainTable) (publicKey : Bytes) (c : AuditCheckpoint) :
    Prop where
  signed : crypto.verify publicKey c.message c.signature = true
  covered : ∃ row ∈ audit.rows, row.seq = c.coverSeq ∧ row.hash = c.chainHash

theorem verifyEach_verified {rows : List AuditCheckpoint} (start : report.verified = false)
    (h : (verifyEach crypto audit publicKey report rows).verified = true) :
    ∀ c ∈ rows, Covers crypto audit publicKey c := by
  induction rows generalizing report with
  | nil => simp
  | cons c rows ih =>
    unfold verifyEach at h
    split at h
    · exact absurd (start.symm.trans h) (by decide)
    · next hsigned =>
      split at h
      · exact absurd (start.symm.trans h) (by decide)
      · next row hrow =>
        split at h
        · exact absurd (start.symm.trans h) (by decide)
        · next hhash =>
          intro x hx
          rcases List.mem_cons.mp hx with rfl | hx
          · refine ⟨by simpa using hsigned, row, List.mem_of_find?_eq_some hrow, ?_,
              not_not.mp hhash⟩
            simpa using List.find?_some hrow
          · exact ih (by exact start) h x hx

theorem verifyAuditCheckpoints_verified {checkpoints : CheckpointTable} {keyID : Bytes}
    (h : verifyAuditCheckpoints crypto audit checkpoints publicKey keyID = .ok report)
    (verified : report.verified = true) :
    ∀ c ∈ checkpoints.rows, c.keyID = Utf8.trimSpace keyID → Covers crypto audit publicKey c := by
  unfold verifyAuditCheckpoints at h
  split at h
  · cases h
  · injection h with h
    subst h
    intro c hc hkey
    exact verifyEach_verified rfl verified c (List.mem_filter.mpr ⟨hc, by simpa using hkey⟩)

/-! The signed message. -/

theorem checkpointPieces_wf (coverSeq : Int) (chainHash keyID : Bytes) (signedAt : Int) :
    ∀ p ∈ checkpointPieces coverSeq chainHash keyID signedAt, p.WF := by
  intro p hp
  simp only [checkpointPieces, List.mem_cons, List.mem_append, List.not_mem_nil, or_false,
    List.cons_append] at hp
  rcases hp with rfl | hp | hp | rfl | hp | hp | rfl | hp | hp | rfl | hp | hp | rfl | hp | hp | rfl
  case inr.inr.inr.inr.inr.inl =>
    obtain ⟨b, hb, rfl⟩ := List.mem_map.mp hp
    exact Encoding.decimalInt_ascii coverSeq b hb
  all_goals first
    | decide
    | exact quote_wf _ p hp
    | exact label_wf _ p hp

/-- **A signed message tells the number and the hash** of the row that it covers. -/
theorem checkpointMessage_inj {coverSeq coverSeq' signedAt signedAt' : Int}
    {chainHash chainHash' keyID keyID' : Bytes}
    (h : auditCheckpointMessage coverSeq chainHash keyID signedAt =
      auditCheckpointMessage coverSeq' chainHash' keyID' signedAt') :
    coverSeq = coverSeq' ∧ chainHash = chainHash' := by
  have hpieces : checkpointPieces coverSeq chainHash keyID signedAt =
      checkpointPieces coverSeq' chainHash' keyID' signedAt' := by
    rw [← Utf8.pieces_flatMap_eq (checkpointPieces_wf coverSeq chainHash keyID signedAt),
      ← Utf8.pieces_flatMap_eq (checkpointPieces_wf coverSeq' chainHash' keyID' signedAt')]
    exact congrArg Utf8.pieces h
  have noComma : ∀ n, comma ∉ (Encoding.decimalInt n).map Utf8.Piece.ascii := by
    intro n hn
    obtain ⟨b, hb, hcomma⟩ := List.mem_map.mp hn
    injection hcomma with hcomma
    exact Encoding.comma_not_mem_decimalInt n (hcomma ▸ hb)
  have rest := List.append_cancel_left (List.cons.inj hpieces).2
  have rest := List.append_cancel_left (List.append_cancel_left rest)
  -- the digits end at the comma, the hash at its closing quote
  obtain ⟨hdigits, rest⟩ := Encoding.append_sep_inj (noComma coverSeq) (noComma coverSeq') rest
  obtain ⟨hhex, -⟩ := quote_inj (List.append_cancel_left rest)
  have hascii : ∀ b, clean (Encoding.hex b) = Encoding.hex b := fun b =>
    clean_of_valid (Utf8.valid_of_ascii (Encoding.hex_ascii b))
  rw [hascii, hascii] at hhex
  refine ⟨Encoding.decimalInt_inj ?_, Encoding.hex_inj hhex⟩
  exact List.map_injective_iff.mpr (fun a b hab => Utf8.Piece.ascii.inj hab) hdigits

end Sesame.Admin

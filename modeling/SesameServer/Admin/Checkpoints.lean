import SesameServer.Admin.AuditChain
import SesameServer.Lib.Sha256
import SesameServer.Lib.Sorted

/- What the signed checkpoints of the admin audit chain bind.

   1. `Signing`, `World.Move` — the database changes in any way at any time; the key signs
      checkpoints, and also sync receipts and capability documents.
   2. `Signing.checkpoint_of_message` — only a checkpoint's message is one.
   3. `checkpoints_bind_history` — if both verifications succeed, the rows up to a
      checkpoint are those that were there when it was signed. -/
namespace Sesame.Admin
open Json Syncproto

/-! What is signed. -/

/-- The document of `GET /capabilities` as it is signed, after its first field. -/
def capabilityPayload (rest : Bytes) : Bytes := utf8 "\x7b\"schemaVersion\":1," ++ rest

/-- A use of the key `SESAME_CAPABILITY_SIGNING_KEY`. -/
inductive Signing where
  /-- `CheckpointAuditChain`, with the audit table that it read. -/
  | checkpoint (audit : ChainTable) (draft : CheckpointDraft)
  /-- A receipt of the sync service. -/
  | receipt (receipt : ReceiptV3)
  | capability (rest : Bytes)

def Signing.message : Signing → Bytes
  | .checkpoint _ draft => draft.message
  | .receipt r => r.signingPayload
  | .capability rest => capabilityPayload rest

structure Signed where
  key : Bytes
  signing : Signing

structure World where
  audit : ChainTable
  checkpoints : CheckpointTable
  signed : List Signed

/-- One move. A call of `CheckpointAuditChain` reads the audit table and then the
    checkpoints, which may have changed by then. -/
inductive World.Move (crypto : Crypto) : World → World → Prop
  | write (w : World) (audit : ChainTable) (checkpoints : CheckpointTable) :
      Move crypto w ⟨audit, checkpoints, w.signed⟩
  | checkpoint (w : World) (checkpoints : CheckpointTable) (key keyID : Bytes) (now : Int)
      (draft : CheckpointDraft)
      (call : draftCheckpoint crypto w.audit checkpoints key keyID now = .ok (some draft)) :
      Move crypto w ⟨w.audit, w.checkpoints, w.signed ++ [⟨key, .checkpoint w.audit draft⟩]⟩
  | receipt (w : World) (key : Bytes) (receipt : ReceiptV3) :
      Move crypto w ⟨w.audit, w.checkpoints, w.signed ++ [⟨key, .receipt receipt⟩]⟩
  | capability (w : World) (key rest : Bytes) :
      Move crypto w ⟨w.audit, w.checkpoints, w.signed ++ [⟨key, .capability rest⟩]⟩

inductive World.Reachable (crypto : Crypto) : World → Prop
  | start (audit : ChainTable) (checkpoints : CheckpointTable) :
      Reachable crypto ⟨audit, checkpoints, []⟩
  | move {w w' : World} (before : Reachable crypto w) (move : Move crypto w w') :
      Reachable crypto w'

/-! Checkpoints are told from the rest. -/

theorem checkpointMessage_head (draft : CheckpointDraft) :
    ∃ rest, draft.message = 123 :: 34 :: 118 :: rest := by
  have hlabel : label "version" = .ascii 34 :: .ascii 118 ::
      (label "version").drop 2 := by decide +kernel
  unfold CheckpointDraft.message auditCheckpointMessage checkpointPieces
  rw [hlabel]
  exact ⟨_, rfl⟩

theorem receipt_head (receipt : ReceiptV3) : ∃ rest, receipt.signingPayload = 0 :: rest := by
  have hframe : Encoding.frame labelReceipt = 0 :: (Encoding.frame labelReceipt).drop 1 := by
    decide +kernel
  unfold ReceiptV3.signingPayload canonical
  rw [List.flatMap_cons, hframe]
  exact ⟨_, rfl⟩

theorem capability_head (rest : Bytes) :
    ∃ rest', capabilityPayload rest = 123 :: 34 :: 115 :: rest' := by
  have hutf : utf8 "\x7b\"schemaVersion\":1," =
      123 :: 34 :: 115 :: (utf8 "\x7b\"schemaVersion\":1,").drop 3 := by decide +kernel
  unfold capabilityPayload
  rw [hutf]
  exact ⟨_, rfl⟩

/-- Only a checkpoint has a checkpoint's message. -/
theorem Signing.checkpoint_of_message {signing : Signing} {draft : CheckpointDraft}
    (h : signing.message = draft.message) : ∃ audit draft', signing = .checkpoint audit draft' := by
  obtain ⟨rest, hdraft⟩ := checkpointMessage_head draft
  have h := h.trans hdraft
  cases signing with
  | checkpoint audit draft' => exact ⟨audit, draft', rfl⟩
  | receipt receipt =>
    obtain ⟨rest', hreceipt⟩ := receipt_head receipt
    have := hreceipt.symm.trans h
    exact absurd (List.cons.inj this).1 (by decide)
  | capability document =>
    obtain ⟨rest', hdocument⟩ := capability_head document
    have := hdocument.symm.trans h
    injection this with _ this
    injection this with _ this
    exact absurd (List.cons.inj this).1 (by decide)

/-! Whole runs. -/

/-- A checkpoint that was signed names the last row of the table at the time. -/
def World.SignsHeads (w : World) : Prop :=
  ∀ s ∈ w.signed, ∀ audit draft, s.signing = .checkpoint audit draft →
    ∃ head, audit.rows.getLast? = some head ∧ draft.coverSeq = head.seq ∧
      draft.chainHash = head.hash

theorem draftCheckpoint_head {crypto : Crypto} {audit : ChainTable} {checkpoints : CheckpointTable}
    {key keyID : Bytes} {now : Int} {draft : CheckpointDraft}
    (h : draftCheckpoint crypto audit checkpoints key keyID now = .ok (some draft)) :
    ∃ head, audit.rows.getLast? = some head ∧ draft.coverSeq = head.seq ∧
      draft.chainHash = head.hash := by
  unfold draftCheckpoint at h
  split at h
  · cases h
  · dsimp only at h
    split at h
    · cases h
    · split at h
      · cases h
      · next head hhead =>
        split at h
        · cases h
        · split at h
          · cases h
          · cases h
            exact ⟨head, hhead, rfl, rfl⟩

theorem Move.signsHeads {crypto : Crypto} {w w' : World} (move : World.Move crypto w w')
    (h : w.SignsHeads) : w'.SignsHeads := by
  intro s hs audit draft hdraft
  cases move with
  | write => exact h s hs audit draft hdraft
  | checkpoint checkpoints key keyID now draft' call =>
    rcases List.mem_append.mp hs with hs | hs
    · exact h s hs audit draft hdraft
    · rw [List.mem_singleton.mp hs] at hdraft
      cases hdraft
      exact draftCheckpoint_head call
  | receipt key receipt | capability key rest =>
    rcases List.mem_append.mp hs with hs | hs
    · exact h s hs audit draft hdraft
    · rw [List.mem_singleton.mp hs] at hdraft
      cases hdraft

theorem Reachable.signsHeads {crypto : Crypto} {w : World} (run : World.Reachable crypto w) :
    w.SignsHeads := by
  induction run with
  | start => exact fun s hs => by cases hs
  | move _ move ih => exact Move.signsHeads move ih

/-! Two chains with one hash. -/

def ChainTable.upTo (table : ChainTable) (n : Int) : List ChainRow :=
  table.rows.filter fun row => row.seq ≤ n

/-- What is asked of the hash and of the canonical text, for the rows of two tables: they
    tell the messages and the rows apart, and no message has the hash that a chain starts
    from. -/
structure Tells (sha256 : Bytes → Bytes) (canonicalRow : AuditColumns → Bytes)
    (rows : List ChainRow) : Prop where
  hash : ∀ x ∈ rows, ∀ y ∈ rows, sha256 (x.message canonicalRow) = sha256 (y.message canonicalRow) →
    x.message canonicalRow = y.message canonicalRow
  text : ∀ x ∈ rows, ∀ y ∈ rows, canonicalRow x.columns = canonicalRow y.columns →
    x.columns = y.columns
  fresh : ∀ x ∈ rows, sha256 (x.message canonicalRow) ≠ auditChainGenesisHash

variable {sha256 : Bytes → Bytes} {canonicalRow : AuditColumns → Bytes}

variable {table : ChainTable}

/-- The rows up to a row of the table end with it, and are a chain if all rows are. -/
theorem upTo_last {row : ChainRow} (hrow : row ∈ table.rows) :
    (table.upTo row.seq).getLast? = some row := by
  refine Sorted.last_eq (table.sorted.sublist List.filter_sublist)
    (List.mem_filter.mpr ⟨hrow, by simp⟩) fun y hy => ?_
  simpa using (List.mem_filter.mp hy).2

theorem upTo_chained (n : Int)
    (chain : HashChain.Chained auditChainGenesisHash (·.prevHash) (·.hash) table.rows) :
    HashChain.Chained auditChainGenesisHash (·.prevHash) (·.hash) (table.upTo n) := by
  rw [Sorted.split table.sorted (n + 1)] at chain
  have := chain.of_append
  have hsame : table.upTo n = table.rows.filter fun row => row.seq < n + 1 :=
    List.filter_congr fun row _ => by rw [decide_eq_decide]; omega
  rwa [hsame]

/-- **One row, one past**: two tables that verify and agree in the hash of a row have the
    same rows up to it. -/
theorem upTo_unique {table' : ChainTable} {row row' : ChainRow}
    (tells : Tells sha256 canonicalRow (table.rows ++ table'.rows))
    (verified : (verifyAuditChain sha256 canonicalRow table).verified = true)
    (verified' : (verifyAuditChain sha256 canonicalRow table').verified = true)
    (hrow : row ∈ table.rows) (hrow' : row' ∈ table'.rows) (hhash : row.hash = row'.hash) :
    table.upTo row.seq = table'.upTo row'.seq := by
  obtain ⟨chain, intact⟩ := verifyAuditChain_verified verified
  obtain ⟨chain', intact'⟩ := verifyAuditChain_verified verified'
  have mem : ∀ x ∈ table.upTo row.seq, x ∈ table.rows := fun x hx => List.mem_of_mem_filter hx
  have mem' : ∀ x ∈ table'.upTo row'.seq, x ∈ table'.rows :=
    fun x hx => List.mem_of_mem_filter hx
  have same : (table.upTo row.seq).map id = (table'.upTo row'.seq).map id := by
    refine (upTo_chained _ chain).unique (upTo_chained _ chain') ?_ ?_ ?_ ?_
    · intro x hx y hy h
      have hx := mem x hx
      have hy := mem' y hy
      have hmessage := tells.hash x (List.mem_append_left _ hx) y (List.mem_append_right _ hy)
        ((intact x hx).hash.symm.trans (h.trans (intact' y hy).hash))
      obtain ⟨hprev, htext⟩ := List.append_inj hmessage
        ((intact x hx).size.trans (intact' y hy).size.symm)
      have hcolumns := tells.text x (List.mem_append_left _ hx) y (List.mem_append_right _ hy) htext
      refine ⟨?_, hprev⟩
      cases x
      cases y
      cases hcolumns
      cases hprev
      cases h
      rfl
    · intro x hx h
      exact tells.fresh x (List.mem_append_left _ (mem x hx))
        ((intact x (mem x hx)).hash.symm.trans h)
    · intro y hy h
      exact tells.fresh y (List.mem_append_right _ (mem' y hy))
        ((intact' y (mem' y hy)).hash.symm.trans h)
    · rw [HashChain.tip, HashChain.tip, upTo_last hrow, upTo_last hrow']
      exact hhash
  simpa using same

/-- **Checkpoints bind the past.** In every run, however the tables were rewritten, if both
    verifications succeed then each checkpoint of the key id was signed over a table, and
    if that table verified, its rows up to the checkpoint are the rows there are now. -/
theorem checkpoints_bind_history {crypto : Crypto} {w : World} (run : World.Reachable crypto w)
    {signingKey publicKey keyID : Bytes}
    (unforgeable : ∀ message signature, crypto.verify publicKey message signature = true →
      ∃ s ∈ w.signed, s.key = signingKey ∧ s.signing.message = message)
    (tells : ∀ s ∈ w.signed, ∀ audit draft, s.signing = .checkpoint audit draft →
      Tells crypto.sha256 canonicalRow (w.audit.rows ++ audit.rows))
    (chain : (verifyAuditChain crypto.sha256 canonicalRow w.audit).verified = true)
    {report : AuditCheckpointReport}
    (checkpoints : verifyAuditCheckpoints crypto w.audit w.checkpoints publicKey keyID = .ok report)
    (verified : report.verified = true) : ∀ c ∈ w.checkpoints.rows, c.keyID = Utf8.trimSpace keyID →
      (∃ s ∈ w.signed, s.key = signingKey ∧ ∃ audit draft, s.signing = .checkpoint audit draft ∧
        draft.message = c.message) ∧
      ∀ s ∈ w.signed, ∀ audit draft, s.signing = .checkpoint audit draft →
        draft.message = c.message →
        (verifyAuditChain crypto.sha256 canonicalRow audit).verified = true →
        w.audit.upTo c.coverSeq = audit.upTo c.coverSeq := by
  intro c hc hkey
  obtain ⟨hsigned, row, hrow, hseq, hhash⟩ :=
    verifyAuditCheckpoints_verified checkpoints verified c hc hkey
  refine ⟨?_, fun s hs audit draft hdraft hmessage hvalid => ?_⟩
  · obtain ⟨s, hs, hkey, hmessage⟩ := unforgeable _ _ hsigned
    obtain ⟨audit, draft, hdraft⟩ := Signing.checkpoint_of_message hmessage
    refine ⟨s, hs, hkey, audit, draft, hdraft, ?_⟩
    rwa [hdraft] at hmessage
  · obtain ⟨head, hhead, hcover, hchain⟩ := Reachable.signsHeads run s hs audit draft hdraft
    obtain ⟨hcover', hchain'⟩ := checkpointMessage_inj hmessage
    have hpast := upTo_unique (tells s hs audit draft hdraft) chain hvalid hrow
      (List.mem_of_getLast? hhead) (hhash.trans (hchain'.symm.trans hchain))
    rwa [hseq, ← hcover, hcover'] at hpast

namespace Demo

def entry (seq : Int) (action : String) : AuditColumns :=
  ⟨seq, seq, none, utf8 "ops@example.org", utf8 action, utf8 "release", none, utf8 "null", [],
    1700000000000000⟩

/-- Stands for the text of Postgres. -/
def text (columns : AuditColumns) : Bytes := Encoding.decimalInt columns.chainSeq ++ columns.action

def rowAfter (sha256 : Bytes → Bytes) (previous : Bytes) (columns : AuditColumns) : ChainRow :=
  ⟨columns, previous, sha256 (previous ++ text columns)⟩

def signingKey : Bytes := List.replicate 64 7
def publicKey : Bytes := List.replicate 32 7
def keyID : Bytes := utf8 "capability-v1"

/-- The first row, and a draft that covers it. -/
def firstRow (sha256 : Bytes → Bytes) : ChainRow :=
  rowAfter sha256 auditChainGenesisHash (entry 1 "release.publish")

def firstTable (sha256 : Bytes → Bytes) : ChainTable :=
  ⟨[firstRow sha256], List.pairwise_singleton _ _⟩

def firstDraft (sha256 : Bytes → Bytes) : CheckpointDraft :=
  ⟨1, (firstRow sha256).hash, keyID, 1700000001000000, []⟩

/-- Stands for Ed25519: nothing verifies but the one message that is signed. -/
def crypto (sha256 : Bytes → Bytes) : Crypto where
  sha256 := sha256
  verify _ message _ := message == (firstDraft sha256).message
  sign _ _ := []
  publicKey := id

def noCheckpoints : CheckpointTable := ⟨[], List.Pairwise.nil⟩

def firstCheckpoint (sha256 : Bytes → Bytes) : CheckpointTable :=
  ⟨[⟨firstDraft sha256, 1⟩], List.pairwise_singleton _ _⟩

/-- A checkpoint is signed over the first row; then the audit table is another one. -/
def world (sha256 : Bytes → Bytes) (audit : ChainTable) : World :=
  ⟨audit, firstCheckpoint sha256,
    [⟨signingKey, .checkpoint (firstTable sha256) (firstDraft sha256)⟩]⟩

theorem trimSpace_keyID : Utf8.trimSpace keyID = keyID := by decide +kernel

theorem world_reachable {sha256 : Bytes → Bytes} (size : (firstRow sha256).hash.length = 32)
    (audit : ChainTable) : World.Reachable (crypto sha256) (world sha256 audit) := by
  refine .move (w := ⟨firstTable sha256, noCheckpoints,
    [⟨signingKey, .checkpoint (firstTable sha256) (firstDraft sha256)⟩]⟩) ?_ (.write _ _ _)
  refine .move (.start (firstTable sha256) noCheckpoints)
    (.checkpoint _ noCheckpoints signingKey keyID 1700000001000000 _ ?_)
  unfold draftCheckpoint
  rw [if_neg (by decide), trimSpace_keyID]
  dsimp only
  rw [if_neg (by decide)]
  change (if (firstRow sha256).hash.length ≠ sha256Size then _ else _) = _
  rw [if_neg (by rw [size]; decide)]
  rfl

theorem world_unforgeable (sha256 : Bytes → Bytes) (audit : ChainTable) :
    ∀ message signature, (crypto sha256).verify publicKey message signature = true →
      ∃ s ∈ (world sha256 audit).signed, s.key = signingKey ∧ s.signing.message = message := by
  intro message signature h
  exact ⟨_, List.mem_singleton_self _, rfl, (beq_iff_eq.mp h).symm⟩

theorem checkpoint_verified {sha256 : Bytes → Bytes} {audit : ChainTable}
    (h : audit.rows.find? (fun row => row.seq == 1) = some (firstRow sha256)) :
    verifyAuditCheckpoints (crypto sha256) audit (firstCheckpoint sha256) publicKey keyID =
      .ok ⟨true, 1, some ⟨firstDraft sha256, 1⟩, ""⟩ := by
  have hrows : (firstCheckpoint sha256).rows.filter (fun c => c.keyID == Utf8.trimSpace keyID) =
      [⟨firstDraft sha256, 1⟩] := by
    rw [trimSpace_keyID]
    rfl
  unfold verifyAuditCheckpoints
  rw [if_neg (by decide)]
  dsimp only
  rw [hrows, verifyEach_cons (beq_self_eq_true _) h rfl]
  rfl

def grownTable : ChainTable :=
  ⟨[firstRow Sha256.sum, rowAfter Sha256.sum (firstRow Sha256.sum).hash (entry 2 "release.revoke")],
    List.pairwise_pair.mpr (by decide)⟩

theorem grown_verified : (verifyAuditChain Sha256.sum text grownTable).verified = true := by
  decide +kernel

theorem grown_bound : (world Sha256.sum grownTable).audit.upTo 1 = (firstTable Sha256.sum).upTo 1 := by
  have tells : Tells Sha256.sum text (grownTable.rows ++ (firstTable Sha256.sum).rows) :=
    ⟨by decide +kernel, by decide +kernel, by decide +kernel⟩
  have first : (verifyAuditChain Sha256.sum text (firstTable Sha256.sum)).verified = true := by
    decide +kernel
  refine (checkpoints_bind_history (world_reachable rfl grownTable)
    (world_unforgeable Sha256.sum grownTable) (fun s hs audit draft hdraft => ?_) grown_verified
    (checkpoint_verified rfl) rfl ⟨firstDraft Sha256.sum, 1⟩ (List.mem_singleton_self _)
    trimSpace_keyID.symm).2 _ (List.mem_singleton_self _) _ _ rfl rfl first
  rw [List.mem_singleton.mp hs] at hdraft
  cases hdraft
  exact tells

/-- SHA-256 but for one message, whose hash is the one that a chain starts from. -/
def zeroing (message : Bytes) : Bytes :=
  if message = auditChainGenesisHash ++ text (entry 0 "admin.create") then auditChainGenesisHash
  else Sha256.sum message

def frontedTable : ChainTable :=
  ⟨[rowAfter zeroing auditChainGenesisHash (entry 0 "admin.create"), firstRow zeroing],
    List.pairwise_pair.mpr (by decide)⟩

/-- A hash may tell all messages apart and still give one of them the first hash. -/
theorem fronted_unbound : World.Reachable (crypto zeroing) (world zeroing frontedTable) ∧
    (∀ message signature, (crypto zeroing).verify publicKey message signature = true →
      ∃ s ∈ (world zeroing frontedTable).signed, s.key = signingKey ∧
        s.signing.message = message) ∧
    (∀ x ∈ frontedTable.rows ++ (firstTable zeroing).rows,
      ∀ y ∈ frontedTable.rows ++ (firstTable zeroing).rows,
        (zeroing (x.message text) = zeroing (y.message text) → x.message text = y.message text) ∧
        (text x.columns = text y.columns → x.columns = y.columns)) ∧
    (verifyAuditChain zeroing text frontedTable).verified = true ∧
    verifyAuditCheckpoints (crypto zeroing) frontedTable (firstCheckpoint zeroing) publicKey keyID =
      .ok ⟨true, 1, some ⟨firstDraft zeroing, 1⟩, ""⟩ ∧
    (verifyAuditChain zeroing text (firstTable zeroing)).verified = true ∧
    (frontedTable.upTo 1).length = 2 ∧ ((firstTable zeroing).upTo 1).length = 1 :=
  ⟨world_reachable (by decide +kernel) frontedTable, world_unforgeable zeroing frontedTable,
    by decide +kernel, by decide +kernel, checkpoint_verified rfl, by decide +kernel, rfl, rfl⟩

end Demo

end Sesame.Admin

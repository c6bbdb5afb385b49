import Mathlib.Data.List.Perm.Basic
import SesameServer.Releases.Candidate

/- What the signature of a release candidate binds.

   1. `artifactValidationError_lines`, `checked` — the checks leave one field that may hold a line
      break, the supported Windows text, and they fix the number of artifacts by the platform.
   2. `artifactLines_agree` — equal lines are lines of artifacts that agree.
   3. `payload_binds` — equal payloads are payloads of candidates that agree. -/
namespace Sesame.Releases

open Outcome Text Encoding Lines

/-! Lines. -/

abbrev Line (s : Bytes) : Prop := (10 : UInt8) ∉ s

theorem line_of_badLine {s : Bytes} (h : badLine s = false) : Line s := by
  intro hmem
  have hbreak : hasLineBreak s = false := (Bool.or_eq_false_iff.mp h).2
  have := List.any_eq_false.mp hbreak 10 hmem
  simp at this

theorem line_of_badText {s : Bytes} (h : badText s = false) : Line s :=
  line_of_badLine (Bool.or_eq_false_iff.mp h).2

theorem line_version {s : Bytes} (h : ValidVersion s = true) : Line s := by
  intro hmem
  have := validVersion_bytes h 10 hmem
  revert this
  decide

theorem line_decimalInt (n : Int) : Line (decimalInt n) := by
  have hdecimal : Line (decimal n.natAbs) := decimal_not_mem (by decide)
  rw [Line, decimalInt]
  split
  · simpa using hdecimal
  · exact hdecimal

theorem line_encode (b : Bytes) : Line (encode b) := by
  intro hmem
  have := encode_no_lineBreak b 10 hmem
  simp [isLineBreak] at this

theorem line_formatBool (b : Bool) : Line (formatBool b) := by
  cases b <;> decide

theorem formatBool_inj {b b' : Bool} (h : formatBool b = formatBool b') : b = b' := by
  revert h
  cases b <;> cases b' <;> decide

theorem encode_digest_ne_nil (digest : Digest) : encode digest.1 ≠ [] := by
  intro h
  have hempty : digest.1 = [] := encode_inj (h.trans (by rfl : [] = encode []))
  have hlength := digest.2
  rw [hempty] at hlength
  cases hlength

/-! What the checks leave. -/

section
variable {X : Type}

/-- The texts of an artifact that are signed. -/
def ReleaseArtifact.texts (artifact : ReleaseArtifact X) : List Bytes :=
  [artifact.format, artifact.architecture, artifact.url, artifact.objectKey, artifact.sha256,
    artifact.distributionClass, artifact.sigstoreIssuer, artifact.sigstoreIdentity,
    artifact.sigstoreBundleSHA256, artifact.updaterSignature, artifact.updaterSigningKeyID,
    artifact.authenticodeSubject, artifact.authenticodeThumbprint]

/-- What the binding needs of a candidate that passed. -/
structure Checked (candidate : ReleaseCandidate X) : Prop where
  version : Line candidate.version
  channel : Line candidate.channel
  platform : Line candidate.platform
  architecture : Line candidate.architecture
  releaseNotesURL : Line candidate.releaseNotesURL
  setDigest : Line candidate.setDigest
  count : candidate.artifacts.length = (expectedFormats candidate).length
  texts : ∀ artifact ∈ candidate.artifacts, ∀ text ∈ artifact.texts, Line text

variable [DecidableEq X] {parseURL : Bytes → Option URL} {candidate : ReleaseCandidate X}

variable {artifact : ReleaseArtifact X}

theorem artifactValidationError_lines
    (h : artifactValidationError parseURL candidate artifact = .ok ()) :
    ∀ text ∈ artifact.texts, Line text := by
  simp only [artifactValidationError, except_bind_ok, check_ok, Bool.not_eq_true] at h
  obtain ⟨-, htext, -, hevidence, -⟩ := h
  have hlines : ∀ text ∈ _, Line text := fun text hmem =>
    line_of_badText (Bool.eq_false_iff.mpr (List.any_eq_false.mp htext text hmem))
  have hlines' : ∀ text ∈ _, Line text := fun text hmem =>
    line_of_badLine (Bool.eq_false_iff.mpr (List.any_eq_false.mp hevidence text hmem))
  exact List.forall_mem_append.mpr ⟨hlines, hlines'⟩

theorem artifactsValidationError_each {seen : List Bytes} {artifacts : List (ReleaseArtifact X)}
    (h : artifactsValidationError parseURL candidate seen artifacts = .ok ()) :
    ∀ artifact ∈ artifacts, artifactValidationError parseURL candidate artifact = .ok () := by
  induction artifacts generalizing seen with
  | nil => simp
  | cons first rest ih =>
    simp only [artifactsValidationError, except_bind_ok] at h
    obtain ⟨-, -, ⟨⟩, hfirst, hrest⟩ := h
    exact List.forall_mem_cons.mpr ⟨hfirst, ih hrest⟩

theorem checked (h : releaseCandidateValidationError parseURL candidate = .ok ()) : Checked candidate := by
  simp only [releaseCandidateValidationError, except_bind_ok, check_ok, Bool.not_eq_true,
    Bool.not_eq_false, not_not] at h
  obtain ⟨-, htext, -, -, -, hversion, -, -, -, -, -, -, -, -, -, -, -, -, -, hcount, ⟨⟩, hartifacts, -⟩ := h
  have hline : ∀ text ∈ _, Line text := fun text hmem =>
    line_of_badText (Bool.eq_false_iff.mpr (List.any_eq_false.mp htext text hmem))
  have heach := artifactsValidationError_each hartifacts
  exact {
    version := line_version hversion
    channel := hline _ (by simp)
    platform := hline _ (by simp)
    architecture := hline _ (by simp)
    releaseNotesURL := hline _ (by simp)
    setDigest := hline _ (by simp)
    count := hcount
    texts := fun artifact hmem => artifactValidationError_lines (heach artifact hmem) }

end

/-! Artifacts. -/

section
variable {X : Type}

/-- Equal maps, or two without an entry. -/
def Evidence.Agree (deep : X → X → Bool) (evidence evidence' : Option (Evidence X)) : Prop :=
  (Evidence.isEmpty evidence = true ∧ Evidence.isEmpty evidence' = true) ∨
    Evidence.same deep evidence evidence' = true

/-- Two artifacts are equal but for the id, the verification time and the stored candidate
    fields. -/
structure ReleaseArtifact.Agree (deep : X → X → Bool) (a a' : ReleaseArtifact X) : Prop where
  format : a.format = a'.format
  architecture : a.architecture = a'.architecture
  url : a.url = a'.url
  objectKey : a.objectKey = a'.objectKey
  sha256 : a.sha256 = a'.sha256
  bytes : a.bytes = a'.bytes
  updaterCapable : a.updaterCapable = a'.updaterCapable
  updaterSignature : a.updaterSignature = a'.updaterSignature
  updaterSigningKeyID : a.updaterSigningKeyID = a'.updaterSigningKeyID
  distributionClass : a.distributionClass = a'.distributionClass
  sigstoreEvidence : Evidence.same deep a.sigstoreEvidence a'.sigstoreEvidence = true
  sigstoreVerified : a.sigstoreVerified = a'.sigstoreVerified
  sigstoreIssuer : a.sigstoreIssuer = a'.sigstoreIssuer
  sigstoreIdentity : a.sigstoreIdentity = a'.sigstoreIdentity
  sigstoreBundleSHA256 : a.sigstoreBundleSHA256 = a'.sigstoreBundleSHA256
  authenticodeEvidence : Evidence.Agree deep a.authenticodeEvidence a'.authenticodeEvidence
  authenticodeVerified : a.authenticodeVerified = a'.authenticodeVerified
  authenticodeSubject : a.authenticodeSubject = a'.authenticodeSubject
  authenticodeThumbprint : a.authenticodeThumbprint = a'.authenticodeThumbprint

variable (marshal : Option (Evidence X) → Option Bytes)

/-- The evidence of an artifact that is hashed. -/
def ReleaseArtifact.evidence (artifact : ReleaseArtifact X) : List (Option (Evidence X)) :=
  artifact.sigstoreEvidence ::
    if Evidence.isEmpty artifact.authenticodeEvidence then [] else [artifact.authenticodeEvidence]

def hashed (sha256 : Bytes → Digest) (candidate : ReleaseCandidate X) : List Bytes :=
  (candidate.artifacts.flatMap ReleaseArtifact.evidence).filterMap marshal ++
    ((releaseSetLines sha256 marshal candidate).map joinLines).toList

/-- Evidence of the two artifacts with one encoding is equal. -/
def ReleaseArtifact.Encodes (deep : X → X → Bool) (a a' : ReleaseArtifact X) : Prop :=
  ∀ e ∈ a.evidence, ∀ e' ∈ a'.evidence, ∀ text, marshal e = some text → marshal e' = some text →
    Evidence.same deep e e' = true

variable {marshal} {sha256 : Bytes → Digest} {deep : X → X → Bool}

variable {candidate : ReleaseCandidate X} {artifact : ReleaseArtifact X} {lines : List Bytes}

theorem evidence_hashed {evidence : Option (Evidence X)} {text : Bytes}
    (hmem : artifact ∈ candidate.artifacts) (hevidence : evidence ∈ artifact.evidence)
    (htext : marshal evidence = some text) : text ∈ hashed marshal sha256 candidate := by
  apply List.mem_append_left
  exact List.mem_filterMap.mpr ⟨evidence, List.mem_flatMap.mpr ⟨artifact, hmem, hevidence⟩, htext⟩

theorem lines_hashed (h : releaseSetLines sha256 marshal candidate = some lines) :
    joinLines lines ∈ hashed marshal sha256 candidate := by
  apply List.mem_append_right
  rw [h]
  simp

theorem releaseSetLines_some {blocks : List (List Bytes)}
    (h : (sortArtifacts candidate.artifacts).mapM (artifactLines sha256 marshal) = some blocks) :
    releaseSetLines sha256 marshal candidate = some ([utf8 "sesame-release-set-digest-v1",
      candidate.version, candidate.channel, candidate.platform, candidate.architecture] ++
      candidate.supportedWindows :: candidate.releaseNotesURL :: blocks.flatten) := by
  rw [releaseSetLines, h]
  rfl

/-- The digest of the Authenticode evidence says whether there is any, and which. -/
theorem authenticodeDigest_cases {digest : Bytes}
    (h : authenticodeDigest sha256 marshal artifact = some digest) :
    (Evidence.isEmpty artifact.authenticodeEvidence = true ∧ digest = []) ∨
      ∃ text, artifact.authenticodeEvidence ∈ artifact.evidence ∧
        marshal artifact.authenticodeEvidence = some text ∧ digest = encode (sha256 text).1 := by
  rw [authenticodeDigest] at h
  split at h
  next hempty => exact .inl ⟨hempty, (Option.some.inj h).symm⟩
  next hempty =>
    obtain ⟨text, htext, rfl⟩ := Option.map_eq_some_iff.mp h
    exact .inr ⟨text, by simp [ReleaseArtifact.evidence, hempty], htext, rfl⟩

theorem artifactLines_line (htexts : ∀ text ∈ artifact.texts, Line text)
    (h : artifactLines sha256 marshal artifact = some lines) :
    lines.length = 20 ∧ ∀ line ∈ lines, Line line := by
  simp only [artifactLines, Option.bind_eq_bind, Option.bind_eq_some_iff, Option.pure_def,
    Option.some.injEq] at h
  obtain ⟨text, -, digest, hdigest, rfl⟩ := h
  have hdigest : Line digest := by
    rcases authenticodeDigest_cases hdigest with ⟨-, rfl⟩ | ⟨text, -, -, rfl⟩
    · exact List.not_mem_nil
    · exact line_encode _
  simp only [ReleaseArtifact.texts, List.forall_mem_cons] at htexts
  obtain ⟨h1, h2, h3, h4, h5, h6, h7, h8, h9, h10, h11, h12, h13, -⟩ := htexts
  refine ⟨rfl, ?_⟩
  simp only [List.forall_mem_cons]
  exact ⟨by decide, h1, h2, h3, h4, h5, line_decimalInt _, line_formatBool _, h10, h11, h6,
    line_formatBool _, h7, h8, h9, line_encode _, line_formatBool _, h12, h13, hdigest,
    List.forall_mem_nil _⟩

/-- **Equal lines are lines of artifacts that agree.** -/
theorem artifactLines_agree {T : Set Bytes} (hsha : Set.InjOn sha256 T) {a a' : ReleaseArtifact X}
    (hmarshal : a.Encodes marshal deep a')
    (hT : ∀ e ∈ a.evidence, ∀ text, marshal e = some text → text ∈ T)
    (hT' : ∀ e ∈ a'.evidence, ∀ text, marshal e = some text → text ∈ T)
    (h : artifactLines sha256 marshal a = some lines)
    (h' : artifactLines sha256 marshal a' = some lines) : a.Agree deep a' := by
  simp only [artifactLines, Option.bind_eq_bind, Option.bind_eq_some_iff, Option.pure_def,
    Option.some.injEq] at h h'
  obtain ⟨text, htext, digest, hdigest, rfl⟩ := h
  obtain ⟨text', htext', digest', hdigest', heq⟩ := h'
  simp only [List.cons.injEq, and_true, true_and] at heq
  obtain ⟨h1, h2, h3, h4, h5, h6, h7, h8, h9, h10, h11, h12, h13, h14, h15, h16, h17, h18, rfl⟩ := heq
  -- digests without a collision on the evidence determine it
  have hsame {e e' text text'} (he : e ∈ a.evidence) (he' : e' ∈ a'.evidence)
      (htext : marshal e = some text) (htext' : marshal e' = some text')
      (h : encode (sha256 text).1 = encode (sha256 text').1) : Evidence.same deep e e' = true := by
    obtain rfl : text = text' :=
      hsha (hT e he text htext) (hT' e' he' text' htext') (Subtype.ext (encode_inj h))
    exact hmarshal e he e' he' text htext htext'
  have hfirst : a.sigstoreEvidence ∈ a.evidence := List.mem_cons_self
  have hfirst' : a'.sigstoreEvidence ∈ a'.evidence := List.mem_cons_self
  refine ⟨h1.symm, h2.symm, h3.symm, h4.symm, h5.symm, decimalInt_inj h6.symm,
    formatBool_inj h7.symm, h8.symm, h9.symm, h10.symm, ?_, formatBool_inj h11.symm, h12.symm,
    h13.symm, h14.symm, ?_, formatBool_inj h16.symm, h17.symm, h18.symm⟩
  · exact hsame hfirst hfirst' htext htext' h15.symm
  -- An empty digest stands for no evidence, and no digest of evidence is empty.
  · rcases authenticodeDigest_cases hdigest with ⟨hempty, rfl⟩ | ⟨code, hin, hcode, rfl⟩
    · rcases authenticodeDigest_cases hdigest' with ⟨hempty', -⟩ | ⟨code', -, -, hne⟩
      · exact .inl ⟨hempty, hempty'⟩
      · exact absurd hne.symm (encode_digest_ne_nil _)
    · rcases authenticodeDigest_cases hdigest' with ⟨-, hne⟩ | ⟨code', hin', hcode', heq⟩
      · exact absurd hne (encode_digest_ne_nil _)
      · exact .inr (hsame hin hin' hcode hcode' heq)

end

/-! Candidates. -/

section
variable {X : Type}

def updaterLines (updater : ReleaseArtifact X) : List Bytes :=
  [utf8 "updater", updater.format, updater.architecture, updater.url, updater.objectKey, updater.sha256,
    if updater.updaterCapable then decimalInt updater.bytes else [],
    updater.updaterSignature, updater.updaterSigningKeyID]

theorem line_updaterLines {updater : ReleaseArtifact X} (htexts : ∀ text ∈ updater.texts, Line text) :
    ∀ line ∈ updaterLines updater, Line line := by
  have hbytes : Line (if updater.updaterCapable then decimalInt updater.bytes else []) := by
    split
    · exact line_decimalInt _
    · exact List.not_mem_nil
  simp only [ReleaseArtifact.texts, List.forall_mem_cons] at htexts
  obtain ⟨h1, h2, h3, h4, h5, -, -, -, -, h10, h11, -⟩ := htexts
  simp only [updaterLines, List.forall_mem_cons]
  exact ⟨by decide, h1, h2, h3, h4, h5, hbytes, h10, h11, List.forall_mem_nil _⟩

theorem texts_updaterArtifact {artifacts : List (ReleaseArtifact X)}
    (h : ∀ artifact ∈ artifacts, ∀ text ∈ artifact.texts, Line text) :
    ∀ text ∈ (updaterArtifact artifacts).texts, Line text := by
  rw [updaterArtifact]
  cases hfind : artifacts.find? (·.updaterCapable) with
  | some updater => exact h updater (List.mem_of_find?_eq_some hfind)
  | none => simp [ReleaseArtifact.texts, Line]

variable {sha256 : Bytes → Digest} {marshal : Option (Evidence X) → Option Bytes} {deep : X → X → Bool}

/-- The payload and the digest in it, as lines around the supported Windows text. -/
theorem payload_lines {candidate : ReleaseCandidate X} {payload : Bytes}
    (h : releaseCandidateSigningPayload sha256 marshal candidate = some payload) :
    ∃ blocks, (sortArtifacts candidate.artifacts).mapM (artifactLines sha256 marshal) = some blocks ∧
      hex (sha256 (joinLines ([utf8 "sesame-release-set-digest-v1", candidate.version, candidate.channel,
        candidate.platform, candidate.architecture] ++ candidate.supportedWindows ::
        candidate.releaseNotesURL :: blocks.flatten))).1 = candidate.setDigest ∧
      payload = joinLines ([utf8 "sesame-release-set-candidate-v1", candidate.version, candidate.channel,
        candidate.platform, candidate.architecture] ++ candidate.supportedWindows ::
        candidate.releaseNotesURL :: candidate.setDigest ::
          updaterLines (updaterArtifact candidate.artifacts)) := by
  simp only [releaseCandidateSigningPayload, releaseSetDigest, releaseSetLines, Option.bind_eq_bind,
    Option.bind_eq_some_iff, Option.map_eq_some_iff, Option.pure_def, Option.some.injEq] at h
  obtain ⟨digest, ⟨lines, ⟨blocks, hblocks, rfl⟩, rfl⟩, h⟩ := h
  split at h
  · cases h
  next hdigest =>
    exact ⟨blocks, hblocks, not_not.mp hdigest, (Option.some.inj h).symm⟩

/-- Two candidates are equal in what they claim, whatever the order of the artifacts. -/
structure ReleaseCandidate.Agree (deep : X → X → Bool) (c c' : ReleaseCandidate X) : Prop where
  version : c.version = c'.version
  channel : c.channel = c'.channel
  platform : c.platform = c'.platform
  architecture : c.architecture = c'.architecture
  supportedWindows : c.supportedWindows = c'.supportedWindows
  releaseNotesURL : c.releaseNotesURL = c'.releaseNotesURL
  setDigest : c.setDigest = c'.setDigest
  artifacts : ∃ order, List.Forall₂ (ReleaseArtifact.Agree deep) c.artifacts order ∧
    order.Perm c'.artifacts

theorem line_header {c : ReleaseCandidate X} (h : Checked c) {tag : Bytes} (htag : Line tag) :
    ∀ line ∈ [tag, c.version, c.channel, c.platform, c.architecture], Line line := by
  simp only [List.forall_mem_cons]
  exact ⟨htag, h.version, h.channel, h.platform, h.architecture, List.forall_mem_nil _⟩

theorem mem_sortArtifacts {artifacts : List (ReleaseArtifact X)} {artifact : ReleaseArtifact X} :
    artifact ∈ sortArtifacts artifacts ↔ artifact ∈ artifacts :=
  List.mem_insertionSort _

theorem line_blocks {c : ReleaseCandidate X} (h : Checked c) {blocks : List (List Bytes)}
    (hblocks : (sortArtifacts c.artifacts).mapM (artifactLines sha256 marshal) = some blocks) :
    blocks.length = c.artifacts.length ∧
      ∀ block ∈ blocks, block.length = 20 ∧ ∀ line ∈ block, Line line := by
  have hwritten := mapM_some hblocks
  refine ⟨hwritten.length_eq.symm.trans (List.length_insertionSort _ _), ?_⟩
  intro block hblock
  obtain ⟨artifact, hmem, hlines⟩ := exists_item hwritten hblock
  exact artifactLines_line (h.texts artifact (mem_sortArtifacts.mp hmem)) hlines

theorem line_flatten {blocks : List (List Bytes)} (h : ∀ block ∈ blocks, ∀ line ∈ block, Line line) :
    ∀ line ∈ blocks.flatten, Line line := by
  intro line hline
  obtain ⟨block, hblock, hmem⟩ := List.mem_flatten.mp hline
  exact h block hblock line hmem

/-- **The signature of a release candidate binds every claim.** Where SHA-256 has no collision on
    what was hashed and evidence maps of the two with one encoding are equal, candidates that pass
    the checks and have one payload agree. -/
theorem payload_binds [DecidableEq X] (parseURL : Bytes → Option URL) (sha256 : Bytes → Digest)
    (marshal : Option (Evidence X) → Option Bytes) (deep : X → X → Bool) (c c' : ReleaseCandidate X)
    (hsha : Set.InjOn sha256 {text | text ∈ hashed marshal sha256 c ∨ text ∈ hashed marshal sha256 c'})
    (hmarshal : ∀ a ∈ c.artifacts, ∀ a' ∈ c'.artifacts, a.Encodes marshal deep a')
    (hvalid : releaseCandidateValidationError parseURL c = .ok ())
    (hvalid' : releaseCandidateValidationError parseURL c' = .ok ()) (payload : Bytes)
    (hpayload : releaseCandidateSigningPayload sha256 marshal c = some payload)
    (hpayload' : releaseCandidateSigningPayload sha256 marshal c' = some payload) :
    c.Agree deep c' := by
  have hc := checked hvalid
  have hc' := checked hvalid'
  obtain ⟨blocks, hblocks, hdigest, rfl⟩ := payload_lines hpayload
  obtain ⟨blocks', hblocks', hdigest', heq⟩ := payload_lines hpayload'
  -- The payload: the lines about the updater are as many on both sides.
  have hupdater := line_updaterLines (texts_updaterArtifact hc.texts)
  have hupdater' := line_updaterLines (texts_updaterArtifact hc'.texts)
  obtain ⟨hlead, hwindows, htrail⟩ := joined_inj (by rfl) (by rfl) (line_header hc (by decide))
    (line_header hc' (by decide))
    (List.forall_mem_cons.mpr ⟨hc.releaseNotesURL, List.forall_mem_cons.mpr ⟨hc.setDigest, hupdater⟩⟩)
    (List.forall_mem_cons.mpr ⟨hc'.releaseNotesURL, List.forall_mem_cons.mpr ⟨hc'.setDigest, hupdater'⟩⟩) heq
  simp only [List.cons.injEq, and_true, true_and] at hlead htrail
  obtain ⟨hversion, hchannel, hplatform, harchitecture⟩ := hlead
  obtain ⟨hnotes, hset, -⟩ := htrail
  -- The platform fixes the number of artifacts, so the hashed lines are as many too.
  obtain ⟨hcount, hlines⟩ := line_blocks hc hblocks
  obtain ⟨hcount', hlines'⟩ := line_blocks hc' hblocks'
  have hnumber : blocks.length = blocks'.length := by
    rw [hcount, hcount', hc.count, hc'.count, expectedFormats, expectedFormats, hplatform]
  have hflat : blocks.flatten.length = blocks'.flatten.length := by
    rw [length_flatten_blocks fun block hblock => (hlines block hblock).1,
      length_flatten_blocks fun block hblock => (hlines' block hblock).1, hnumber]
  have hhashed := hsha (.inl (lines_hashed (releaseSetLines_some hblocks)))
    (.inr (lines_hashed (releaseSetLines_some hblocks')))
    (Subtype.ext (hex_inj (hdigest.trans (hset.trans hdigest'.symm))))
  obtain ⟨-, -, htrail⟩ := joined_inj (by rfl) (by simp [hflat]) (line_header hc (by decide))
    (line_header hc' (by decide))
    (List.forall_mem_cons.mpr ⟨hc.releaseNotesURL, line_flatten fun b hb => (hlines b hb).2⟩)
    (List.forall_mem_cons.mpr ⟨hc'.releaseNotesURL, line_flatten fun b hb => (hlines' b hb).2⟩) hhashed
  obtain rfl : blocks = blocks' := flatten_blocks_inj hnumber (fun b hb => (hlines b hb).1)
    (fun b hb => (hlines' b hb).1) (List.cons.inj htrail).2
  have hagree : List.Forall₂ (ReleaseArtifact.Agree deep) (sortArtifacts c.artifacts)
      (sortArtifacts c'.artifacts) := by
    refine forall₂_of_blocks hblocks hblocks' ?_
    intro a ha a' ha' block hblock hblock'
    have hmem := mem_sortArtifacts.mp ha
    have hmem' := mem_sortArtifacts.mp ha'
    exact artifactLines_agree hsha (hmarshal a hmem a' hmem')
      (fun e he text htext => .inl (evidence_hashed hmem he htext))
      (fun e he text htext => .inr (evidence_hashed hmem' he htext)) hblock hblock'
  obtain ⟨order, horder, hperm⟩ := List.perm_comp_forall₂ (List.perm_insertionSort _ _).symm hagree
  exact ⟨hversion, hchannel, hplatform, harchitecture, hwindows, hnotes, hset, order, horder,
    hperm.trans (List.perm_insertionSort _ _)⟩

end

namespace Demo

/-! The set of `candidate`, once more in another order, with ids and an empty Authenticode map. -/

def resubmitted : ReleaseCandidate Empty :=
  { candidate with
    artifacts := [artifact "rpm", { artifact "appimage" with id := utf8 "a" },
      { artifact "deb" with authenticodeEvidence := some ⟨[], by decide⟩ }] }

theorem resubmitted_lines :
    releaseSetLines sha256 marshal resubmitted = releaseSetLines sha256 marshal candidate := by
  have hsorted : sortArtifacts candidate.artifacts =
      [artifact "appimage", artifact "deb", artifact "rpm"] := by decide +kernel
  have hsorted' : sortArtifacts resubmitted.artifacts = [{ artifact "appimage" with id := utf8 "a" },
      { artifact "deb" with authenticodeEvidence := some ⟨[], by decide⟩ }, artifact "rpm"] := by
    decide +kernel
  have hid (a : ReleaseArtifact Empty) (id : Bytes) :
      artifactLines sha256 marshal { a with id := id } = artifactLines sha256 marshal a := rfl
  have hempty {a : ReleaseArtifact Empty} (h : a.authenticodeEvidence = none) :
      artifactLines sha256 marshal { a with authenticodeEvidence := some ⟨[], by decide⟩ } =
        artifactLines sha256 marshal a := by
    simp only [artifactLines, authenticodeDigest, h, Evidence.isEmpty, List.isEmpty_nil, if_true]
  have hdeb : (artifact "deb").authenticodeEvidence = none := rfl
  rw [releaseSetLines, releaseSetLines, hsorted, hsorted']
  simp only [List.mapM_cons, hid, hempty hdeb]
  dsimp only [resubmitted]

theorem candidate_digest :
    releaseSetDigest sha256 marshal candidate = some candidate.setDigest := by decide +kernel

/-- What is hashed: the one evidence map, and the lines. -/
theorem mem_hashed {text : Bytes}
    (h : text ∈ hashed marshal sha256 candidate ∨ text ∈ hashed marshal sha256 resubmitted) :
    marshal (some evidence) = some text ∨
      (releaseSetLines sha256 marshal candidate).map joinLines = some text := by
  have hall : ∀ e ∈ candidate.artifacts.flatMap ReleaseArtifact.evidence ++
      resubmitted.artifacts.flatMap ReleaseArtifact.evidence, e = some evidence := by decide +kernel
  simp only [hashed, resubmitted_lines, List.mem_append, List.mem_filterMap, Option.mem_toList] at h hall
  rcases h with (⟨e, he, htext⟩ | h) | (⟨e, he, htext⟩ | h)
  · exact .inl (hall e (.inl he) ▸ htext)
  · exact .inr h
  · exact .inl (hall e (.inr he) ▸ htext)
  · exact .inr h

theorem sha256_injOn : Set.InjOn sha256
    {text | text ∈ hashed marshal sha256 candidate ∨ text ∈ hashed marshal sha256 resubmitted} := by
  have hdiffer : (marshal (some evidence)).map (fun text => hex (sha256 text).1) ≠
      some candidate.setDigest := by decide +kernel
  -- the evidence and the lines have different digests
  have hapart {x y} (hx : marshal (some evidence) = some x)
      (hy : (releaseSetLines sha256 marshal candidate).map joinLines = some y) :
      sha256 x ≠ sha256 y := by
    intro h
    obtain ⟨lines, hlines, rfl⟩ := Option.map_eq_some_iff.mp hy
    have hdigest := candidate_digest
    rw [releaseSetDigest, hlines, Option.map_some, ← h] at hdigest
    rw [hx, Option.map_some] at hdiffer
    exact hdiffer hdigest
  intro x hx y hy h
  rcases mem_hashed hx with hx | hx <;> rcases mem_hashed hy with hy | hy
  · exact Option.some.inj (hx.symm.trans hy)
  · exact absurd h (hapart hx hy)
  · exact absurd h.symm (hapart hy hx)
  · exact Option.some.inj (hx.symm.trans hy)

theorem marshal_same : ∀ a ∈ candidate.artifacts, ∀ a' ∈ resubmitted.artifacts,
    a.Encodes marshal (fun x _ => nomatch x) a' := by
  have hall : ∀ a ∈ candidate.artifacts, ∀ a' ∈ resubmitted.artifacts, ∀ e ∈ a.evidence,
      ∀ e' ∈ a'.evidence, Evidence.same (fun x _ => nomatch x) e e' = true := by decide +kernel
  exact fun a ha a' ha' e he e' he' _ _ _ => hall a ha a' ha' e he e' he'

theorem resubmitted_agrees :
    candidate.artifacts ≠ resubmitted.artifacts ∧ candidate.Agree (fun x _ => nomatch x) resubmitted := by
  have hdiffer : candidate.artifacts ≠ resubmitted.artifacts := by decide +kernel
  have hvalid : releaseCandidateValidationError parseURL candidate = .ok () := by decide +kernel
  have hvalid' : releaseCandidateValidationError parseURL resubmitted = .ok () := by decide +kernel
  have hdigest' : releaseSetDigest sha256 marshal resubmitted = some resubmitted.setDigest := by
    rw [releaseSetDigest, resubmitted_lines]
    exact candidate_digest
  have hsome : ∃ payload, releaseCandidateSigningPayload sha256 marshal candidate = some payload ∧
      releaseCandidateSigningPayload sha256 marshal resubmitted = some payload := by
    have hupdater : updaterArtifact resubmitted.artifacts = updaterArtifact candidate.artifacts := by
      decide +kernel
    simp only [releaseCandidateSigningPayload, candidate_digest, hdigest', Option.bind_eq_bind,
      Option.bind_some, ne_eq, not_true_eq_false, if_false, hupdater]
    exact ⟨_, rfl, by dsimp only [resubmitted]; rfl⟩
  obtain ⟨payload, hpayload, hpayload'⟩ := hsome
  exact ⟨hdiffer, payload_binds parseURL sha256 marshal _ candidate resubmitted sha256_injOn
    marshal_same hvalid hvalid' payload hpayload hpayload'⟩

end Demo

end Sesame.Releases

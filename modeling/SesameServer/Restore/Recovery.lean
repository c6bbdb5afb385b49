import SesameServer.Restore.Shelves

/- What `recoverLocked` does from every state a replacement, or an earlier recovery,
   can have left behind.

   1. An old item is `Home`, `Away`, or (`Undone`) away with a new item possibly in
      its place; in the end it is home, or it has been `Swapped` for the new one.
   2. `Recoverable` lists the states of the whole directory: one for each phase of the
      journal, and the two without one.
   3. `rollBack_runs`: a roll back that finds every old item it must not lose either
      staged or aside brings all of them home. `cleanup_runs` is the other branch.
   4. `recover_runs` puts them together: `Recoverable` wherever it is interrupted,
      `Recovered` at the end. -/
namespace Sesame.Ops

open Crash FileTree

variable {β : Type}

/-! Where an item can be. -/

namespace Setup

variable (X : Setup β) (n : Bytes) (i : Item β)

def Home : Prop := i .place = X.was n ∧ i .kept = Tree.empty

/-- The old item is aside and its place free. -/
def Away : Prop := i .place = Tree.empty ∧ i .kept = X.was n

/-- The old item is in place, or it is aside and at most a new item, or what is left
    of it, has its place: none if the new item is still staged, or there is none. -/
def Undone : Prop :=
  X.Home n i ∨
    (i .kept = X.was n ∧ (i .staged ≠ Tree.empty ∨ n ∉ X.new → i .place = Tree.empty))

/-- The new item is in place and the old one aside. -/
def Swapped : Prop := i .place = X.will n ∧ i .kept = X.was n

/-- A roll back that removes what is in the item's place does not remove the old one. -/
def Safe : Prop := n ∈ X.old → n ∈ X.new → i .staged ≠ Tree.empty ∨ i .kept ≠ Tree.empty

variable {X n i}

theorem undone_of (h : X.Home n i ∨ X.Away n i) : X.Undone n i :=
  h.imp_right fun h => ⟨h.2, fun _ => h.1⟩

theorem home_of_not_old (hn : n ∈ managedItems) (hold : n ∉ X.old) (h : X.Home n i ∨ X.Away n i) :
    X.Home n i := by
  have hwas := X.was_of_not_old hn hold
  rcases h with h | h
  · exact h
  · exact ⟨h.1.trans hwas.symm, h.2.trans hwas⟩

/-- If the new item is no longer staged, the old one is aside. -/
theorem kept_of_undone (hn : n ∈ managedItems) (hnew : n ∈ X.new) (h : X.Undone n i)
    (safe : X.Safe n i) (hs : i .staged = Tree.empty) : i .kept = X.was n := by
  rcases h with h | h
  · by_cases hold : n ∈ X.old
    · rcases safe hold hnew with h' | h'
      · exact absurd hs h'
      · exact absurd h.2 h'
    · rw [h.2, X.was_of_not_old hn hold]
  · exact h.1

theorem Home.move {j : Item β} (h : X.Away n j) : X.Home n (j.move .kept .place) :=
  ⟨h.2, rfl⟩

end Setup

/-- Where an item ends up, by whether a journal has said `committed`. -/
def Setup.Final (X : Setup β) : Bool → Bytes → Item β → Prop
  | true => X.Swapped
  | false => X.Home

theorem Setup.Final.unstage {X : Setup β} {c : Bool} {n : Bytes} {i : Item β} (h : X.Final c n i)
    (t : Tree Bytes β) : X.Final c n (Function.update i .staged t) := by
  cases c <;> exact h

/-! States of the directory. -/

variable {codec : Codec β} {X : Setup β}

/-- There is a journal, and the items are where they can be in its phase. -/
inductive Pending (codec : Codec β) (X : Setup β) : Bool → Site β → Prop where
  | moving {s} (v) (h : ∀ n ∈ managedItems, X.Home n (v n) ∨ X.Away n (v n))
      (state : At codec X v (some (X.journal .movingOld)) false s) : Pending codec X false s
  | installing {s} (v) (h : ∀ n ∈ managedItems, X.Undone n (v n))
      (state : At codec X v (some (X.journal .installing)) false s) : Pending codec X false s
  | committed {s} (v) (h : ∀ n ∈ managedItems, X.Swapped n (v n))
      (state : At codec X v (some (X.journal .committed)) true s) : Pending codec X true s

variable {c : Bool} {n : Bytes} {s : Site β} {phase : Phase} {v : Shelves β} {I P : Site β → Prop}

theorem Pending.ghost (h : Pending codec X c s) : s.committed = c := by
  cases h with
  | moving _ _ state | installing _ _ state | committed _ _ state => exact state.ghost

theorem Pending.journal (h : Pending codec X c s) : s.disk.node [journalName] ≠ none := by
  cases h with
  | moving _ _ state | installing _ _ state | committed _ _ state => simp [state.journal]

/-- The journal is in a phase, and every item where `p` says. -/
abbrev Phased (codec : Codec β) (X : Setup β) (p : Bytes → Item β → Prop) (phase : Phase) (c : Bool)
    (s : Site β) : Prop :=
  ∃ v, (∀ n ∈ managedItems, p n (v n)) ∧ At codec X v (some (X.journal phase)) c s

def Landed (codec : Codec β) (X : Setup β) (j : Option Journal) (c : Bool) (s : Site β) : Prop :=
  ∃ v, (∀ n ∈ managedItems, X.Final c n (v n)) ∧ At codec X v j c s

/-- What can be found when a recovery starts. -/
def Recoverable (codec : Codec β) (X : Setup β) (c : Bool) (s : Site β) : Prop :=
  Pending codec X c s ∨ Landed codec X none c s

/-! Reading the journal. -/

theorem plain_managed (hn : n ∈ managedItems) : Plain n :=
  (by decide : ∀ n ∈ managedItems, Plain n) n hn

theorem Setup.journal_plain (X : Setup β) (h : ∀ text, phase ≠ .other text) :
    (X.journal phase).Plain := by
  refine ⟨fun n hn => ?_, h⟩
  obtain ⟨r, hs, hr⟩ := X.stagingName
  obtain ⟨r', ha, hr'⟩ := X.asideName
  simp only [Setup.journal, List.mem_cons, List.mem_append] at hn
  rcases hn with rfl | rfl | hn | hn
  · exact hs ▸ Plain.append (by decide) hr
  · exact ha ▸ Plain.append (by decide) hr'
  · exact plain_managed (X.mem_old.mp hn).1
  · exact plain_managed (X.mem_new.mp hn).1

theorem Setup.safe_names (X : Setup β) : safeName X.staging = true ∧ safeName X.aside = true := by
  obtain ⟨r, hs, hr⟩ := X.stagingName
  obtain ⟨r', ha, hr'⟩ := X.asideName
  exact ⟨hs ▸ safeName_append (by decide) hr (by decide),
    ha ▸ safeName_append (by decide) hr' (by decide)⟩

theorem Setup.all_managed (X : Setup β) : (X.old ++ X.new).all managedName = true := by
  refine List.all_eq_true.mpr fun n hn => ?_
  have hm : n ∈ managedItems := by
    rcases List.mem_append.mp hn with h | h
    · exact (X.mem_old.mp h).1
    · exact (X.mem_new.mp h).1
  exact List.any_eq_true.mpr ⟨n, hm, beq_self_eq_true n⟩

theorem At.no_journal (h : At codec X v none c s) : journalOf codec s.disk = .ok none := by
  have hread : s.disk.read [journalName] = .error .notExist := by
    rw [Disk.read, h.journal]
    rfl
  rw [journalOf, hread]

theorem At.has_journal (h : At codec X v (some (X.journal phase)) c s)
    (hphase : ∀ text, phase ≠ .other text) :
    journalOf codec s.disk = .ok (some (X.journal phase)) := by
  have hread : s.disk.read [journalName] = .ok (codec.encode (X.journal phase)) := by
    rw [Disk.read, h.journal]
    rfl
  have hsafe := X.safe_names
  have hnames : (X.journal phase).version = journalVersion ∧
      safeName (X.journal phase).staging = true ∧ safeName (X.journal phase).aside = true :=
    ⟨rfl, hsafe.1, hsafe.2⟩
  have hall : ((X.journal phase).old ++ (X.journal phase).new).all managedName = true :=
    X.all_managed
  simp only [journalOf, hread, codec.decode_encode _ (X.journal_plain hphase), hnames, hall,
    ne_eq, not_true_eq_false, or_self, if_false]

theorem readJournal_within {faults : Bool} {j : Option Journal} (stop : ∀ s, P s → I s)
    (reads : ∀ s, P s → journalOf codec s.disk = .ok j) :
    Within faults I P (readJournal codec) fun r s => P s ∧ r = j := by
  refine Runs.op_runs (fun s a s' hp h => ?_) (fun w e _ hp h => ?_)
    (fun w hf hq hp => ⟨rfl, hf, hq, stop _ hp⟩) stop
  · rw [reads s hp] at h
    simp only [Except.map, Except.ok.injEq, Prod.mk.injEq] at h
    exact ⟨h.2 ▸ hp, h.1.symm⟩
  · rw [reads _ hp] at h
    cases h

/-! One item at a time. -/

section Steps

variable {faults : Bool} {I : Site β → Prop} {v : Shelves β} {j : Option Journal} {c : Bool}
  {n : Bytes} {a b : Slot}

theorem existsAt_within (hn : n ∈ managedItems) (stop : ∀ s, At codec X v j c s → I s) :
    Within faults I (At codec X v j c) (existsAt (a.path X n))
      fun r s => (r = true ↔ v n a ≠ Tree.empty) ∧ At codec X v j c s := by
  refine (look_within stop).weaken ?_
  rintro r s ⟨h, rfl⟩
  exact ⟨by rw [Option.isSome_iff_ne_none, ne_eq, h.shelves.node hn], h⟩

/-- A rename from a slot that holds the item to one that does not. -/
theorem rename_within (hn : n ∈ managedItems) (hab : a ≠ b) (source : v n a ≠ Tree.empty)
    (target : v n b = Tree.empty) (stop : ∀ s, At codec X v j c s → I s) :
    Within faults I (fun s => At codec X v j c s ∧ s.disk.node (b.dir X) = some .dir)
      (rename (a.path X n) (b.dir X) n)
      fun _ s => At codec X (Function.update v n ((v n).move a b)) j c s ∧
        s.disk.node (b.dir X) = some .dir := by
  refine change_within (fun s h => stop s h.1) fun s h => ?_
  obtain ⟨hat, hdir⟩ := h
  have hpath : Apart (a.path X n) (b.path X n) := Setup.path_apart hn hn (Or.inl hab)
  have hsource : s.disk.node (a.path X n) ≠ none := fun h' => source ((hat.shelves.node hn).mp h')
  have htarget : s.disk.node (b.dir X ++ [n]) = none := (hat.shelves.node hn).mpr target
  have hne : a.path X n ≠ [] := by simp [Slot.path]
  have hout : ¬a.path X n <+: b.dir X ++ [n] := hpath.1
  refine ⟨_, Disk.rename_run hsource hdir htarget hne hout, hat.move hn hab, ?_⟩
  -- the directory is above the new path and not in the moved tree
  have hup : ¬a.path X n <+: b.dir X := fun h' => hout (h'.trans (List.prefix_append _ _))
  have hself : ¬b.dir X ++ [n] <+: b.dir X := fun h' => absurd h'.length_le (by simp)
  show (s.disk.move (a.path X n) (b.dir X) n hne hdir hout).node (b.dir X) = _
  rw [Disk.node_move hup hself]
  exact hdir

theorem rename_place (hn : n ∈ managedItems) (ha : a ≠ .place) (source : v n a ≠ Tree.empty)
    (target : v n .place = Tree.empty) (stop : ∀ s, At codec X v j c s → I s) :
    Within faults I (At codec X v j c) (rename (a.path X n) [] n)
      fun _ => At codec X (Function.update v n ((v n).move a .place)) j c :=
  (rename_within hn ha source target stop).conseq (fun s h => ⟨h, s.disk.root⟩)
    (fun _ _ h => h.1)

theorem removeAll_place (hn : n ∈ managedItems)
    (stop : ∀ s t, At codec X (Function.update v n (Function.update (v n) .place t)) j c s → I s) :
    Within faults I (At codec X v j c) (removeAll [n])
      fun _ => At codec X (Function.update v n (Function.update (v n) .place Tree.empty)) j c := by
  refine (removeAll_within (P := fun s => ∃ t, At codec X (Function.update v n
    (Function.update (v n) .place t)) j c s) (by simp) (fun s ⟨t, h⟩ => stop s t h) ?_).conseq
    ?_ ?_
  · rintro s x hx below ⟨t, h⟩
    obtain ⟨t', h'⟩ := h.unlink (a := .place) (x := x) hn below
    rw [Function.update_self, Function.update_idem, Function.update_idem] at h'
    exact ⟨t', h'⟩
  · intro s h
    refine ⟨v n .place, ?_⟩
    rwa [Function.update_eq_self, Function.update_eq_self]
  · rintro _ s ⟨⟨t, h⟩, hgone⟩
    have ht := (h.shelves.node (a := .place) hn).mp hgone
    rw [Function.update_self, Function.update_self] at ht
    exact ht ▸ h

end Steps

/-! Rolling back. -/

section RollBack

variable {phase : Phase}

/-- A roll back has begun on a journal of phase `phase`. -/
theorem pending_of_rolling (hphase : phase = .movingOld ∨ phase = .installing)
    (h : ∀ n ∈ managedItems, X.Home n (v n) ∨ X.Away n (v n))
    (hs : At codec X v (some (X.journal phase)) false s) : Pending codec X false s := by
  rcases hphase with rfl | rfl
  · exact .moving v h hs
  · exact .installing v (fun n hn => Setup.undone_of (h n hn)) hs

theorem uninstall_step (hnew : n ∈ X.new) (hundone : X.Undone n (v n)) (hsafe : X.Safe n (v n))
    (hall : ∀ m ∈ managedItems, X.Undone m (v m)) :
    Within false (Pending codec X false) (At codec X v (some (X.journal .installing)) false)
      (uninstall (X.journal .installing) n)
      fun _ s => ∃ i, (X.Home n i ∨ X.Away n i) ∧
        At codec X (Function.update v n i) (some (X.journal .installing)) false s := by
  have hn := (X.mem_new.mp hnew).1
  refine Runs.bind_runs (existsAt_within (a := .staged) hn fun s h => .installing v hall h)
    fun staged => Runs.assuming fun hstaged => ?_
  by_cases hs : staged = true
  · -- not installed yet: what is in place, if anything, is the old item
    rw [Outcome.onlyIf, if_neg (not_not.mpr hs)]
    have hi : X.Home n (v n) ∨ X.Away n (v n) :=
      hundone.imp_right fun h => ⟨h.2 (Or.inl (hstaged.mp hs)), h.1⟩
    refine Runs.pure_runs fun s h => ⟨v n, hi, ?_⟩
    rwa [Function.update_eq_self]
  · rw [Outcome.onlyIf, if_pos hs]
    have hempty : v n .staged = Tree.empty := by
      by_contra hne
      exact hs (hstaged.mpr hne)
    have hkept := Setup.kept_of_undone hn hnew hundone hsafe hempty
    have haway : X.Away n (Function.update (v n) .place Tree.empty) :=
      ⟨Function.update_self .., (Function.update_of_ne (by simp) ..).trans hkept⟩
    refine (removeAll_place hn fun s t h => .installing _ ?_ h).weaken
      fun _ s h => ⟨_, Or.inr haway, h⟩
    -- a removal that is cut short leaves part of a new item
    refine forall_update (fun m hm _ => hall m hm) (Or.inr ⟨hkept, fun h => ?_⟩)
    rcases h with h | h
    · exact absurd hempty h
    · exact absurd hnew h

theorem putBack_step (hphase : phase = .movingOld ∨ phase = .installing) (hold : n ∈ X.old)
    (hi : X.Home n (v n) ∨ X.Away n (v n))
    (hall : ∀ m ∈ managedItems, X.Home m (v m) ∨ X.Away m (v m)) :
    Within false (Pending codec X false) (At codec X v (some (X.journal phase)) false)
      (putBack (X.journal phase) n)
      fun _ s => ∃ i, X.Home n i ∧
        At codec X (Function.update v n i) (some (X.journal phase)) false s := by
  obtain ⟨hn, hwas⟩ := X.mem_old.mp hold
  have stop : ∀ s, At codec X v (some (X.journal phase)) false s → Pending codec X false s :=
    fun s h => pending_of_rolling hphase hall h
  refine Runs.bind_runs (existsAt_within (a := .kept) hn stop) fun inAside =>
    Runs.assuming fun haside => ?_
  refine Runs.bind_runs (existsAt_within (a := .place) hn stop) fun inPlace =>
    Runs.assuming fun hplace => ?_
  rcases hi with hhome | haway
  · -- nothing is aside
    have hno : ¬(inAside && !inPlace) = true := by
      simp only [Bool.and_eq_true, not_and]
      exact fun h => absurd hhome.2 (haside.mp h)
    rw [Outcome.onlyIf, if_neg hno]
    refine Runs.pure_runs fun s h => ⟨v n, hhome, ?_⟩
    rwa [Function.update_eq_self]
  · have hin : v n .kept ≠ Tree.empty := by rwa [haway.2]
    have hyes : (inAside && !inPlace) = true := by
      simp only [Bool.and_eq_true, Bool.not_eq_true']
      refine ⟨haside.mpr hin, ?_⟩
      by_contra hp
      exact hplace.mp (by simpa using hp) haway.1
    rw [Outcome.onlyIf, if_pos hyes]
    exact (rename_place hn (by simp) hin haway.1 stop).weaken
      fun _ s h => ⟨_, Setup.Home.move haway, h⟩

/-- The items are where they end up and, unless a call has failed, nothing is staged. -/
structure Swept (codec : Codec β) (X : Setup β) (j : Option Journal) (c faults : Bool)
    (s : Site β) : Prop where
  items : Landed codec X j c s
  staging : faults = false → s.disk.node [X.staging] = none

section Sweep

variable {faults : Bool} {I : Site β → Prop} {j : Journal} {c : Bool}

/-- Emptying the staging directory, whether or not it succeeds. -/
theorem sweep_staging {E : Failure → World (Site β) → Prop}
    (stop : ∀ s, Landed codec X (some j) c s → I s) :
    Runs faults (Landed codec X (some j) c) (attempt (removeAll [X.staging]))
      (fun _ => Swept codec X (some j) c faults) E I := by
  have hremove : Within faults (Landed codec X (some j) c) (Landed codec X (some j) c)
      (removeAll [X.staging])
      fun _ s => Landed codec X (some j) c s ∧ s.disk.node [X.staging] = none := by
    refine removeAll_within (by simp) (fun s h => h) ?_
    rintro s x hx below ⟨v, hv, h⟩
    obtain ⟨t, ht⟩ := h.unlink_staging below
    exact ⟨_, fun n hn => (hv n hn).unstage (t n), ht⟩
  refine (attempt_within hremove).mono (fun _ h => h) ?_ (fun _ _ h => h) stop
  rintro _ s (h | ⟨hfaults, h⟩)
  · exact ⟨h.1, fun _ => h.2⟩
  · exact ⟨h, fun hno => by simp [hfaults] at hno⟩

/-- Removing a file of the journal does not bring the staging directory back. -/
theorem staging_unlink {m : Bytes} (hm : m ∈ Setup.journalFiles)
    (h : s.disk.node [X.staging] = none) (hx) : (s.disk.unlink [m] hx).node [X.staging] = none := by
  rw [Disk.node_unlink, if_neg]
  · exact h
  · exact (apart_of_head (X.staging_ne_journal hm)).2

theorem sweep_journal (stop : ∀ s, Landed codec X (some j) c s → I s)
    (clean : ∀ s, Swept codec X none c faults s → I s) :
    Within faults I (Swept codec X (some j) c faults)
      (do removeUnlessGone [journalName]; attempt (remove [journalTemp]); point)
      fun _ => Swept codec X none c faults := by
  refine Runs.bind_runs (R := fun _ => Swept codec X none c faults) ?_ fun _ => ?_
  · refine removeUnlessGone_within (by simp) (fun s h => stop s h.items) ?_ ?_
    · rintro s ⟨⟨v, hv, h⟩, _⟩
      exact ⟨_, h.journal⟩
    · rintro s ⟨⟨v, hv, h⟩, hgone⟩
      exact ⟨⟨v, hv, h.unlink_journal⟩, fun hf => staging_unlink Setup.name_mem (hgone hf) (by simp)⟩
  · refine Runs.bind_runs (R := fun _ => Swept codec X none c faults) ?_ fun _ => ?_
    · refine attempt_remove clean (fun s h => h) ?_
      rintro s hp ⟨⟨v, hv, h⟩, hgone⟩
      exact ⟨⟨v, hv, h.unlink_temp⟩, fun hf => staging_unlink Setup.temp_mem (hgone hf) (by simp)⟩
    · exact point_within clean

end Sweep

/-- **Completing.** Of a committed replacement only the staging directory and the
    journal are left to remove. -/
theorem cleanup_within {faults : Bool}
    (stop : ∀ s, Landed codec X (some (X.journal .committed)) true s → I s)
    (clean : ∀ s, Swept codec X none true faults s → I s) :
    Within faults I (Landed codec X (some (X.journal .committed)) true)
      (cleanupCommitted (X.journal .committed)) fun _ => Swept codec X none true faults :=
  Runs.bind_runs (sweep_staging stop) fun _ => sweep_journal stop clean

/-- The first loop of a roll back, in the phase that needs it. -/
theorem uninstall_all : Within false (Pending codec X false)
      (Phased codec X (fun n i => X.Undone n i ∧ X.Safe n i) .installing false)
      (forEach X.new (uninstall (X.journal .installing)))
      fun _ => Phased codec X (fun n i => X.Home n i ∨ X.Away n i) .installing false := by
  refine forEach_items (fun n i => X.Undone n i ∧ X.Safe n i) _ (fun n hn => (X.mem_new.mp hn).1)
    X.nodup_new (fun n _ hnew i h => h.1.imp_right fun hi => ⟨hi.2 (Or.inr hnew), hi.1⟩)
    fun v n hn hi hall => ?_
  refine uninstall_step hn hi.1 hi.2 fun m hm => ?_
  exact (hall m hm).elim (fun h => h.1) Setup.undone_of

theorem putBack_all (hphase : phase = .movingOld ∨ phase = .installing) :
    Within false (Pending codec X false)
      (Phased codec X (fun n i => X.Home n i ∨ X.Away n i) phase false)
      (forEach X.old (putBack (X.journal phase)))
      fun _ => Landed codec X (some (X.journal phase)) false :=
  forEach_items _ X.Home (fun _ hn => (X.mem_old.mp hn).1) X.nodup_old
    (fun _ hn hold _ h => Setup.home_of_not_old hn hold h)
    fun _ _ hn hi hall => putBack_step hphase hn hi fun m hm => (hall m hm).elim id Or.inl

def Begun (X : Setup β) : Phase → Bytes → Item β → Prop
  | .installing, n, i => X.Undone n i ∧ X.Safe n i
  | _, n, i => X.Home n i ∨ X.Away n i

/-- **Rolling back.** Every old item comes home. -/
theorem rollBack_within (hphase : phase = .movingOld ∨ phase = .installing) :
    Within false (Recoverable codec X false) (Phased codec X (Begun X phase) phase false)
      (rollBack (X.journal phase)) fun _ => Swept codec X none false false := by
  have stop : ∀ s, Landed codec X (some (X.journal phase)) false s → Recoverable codec X false s :=
    fun s ⟨v, hv, h⟩ => Or.inl (pending_of_rolling hphase (fun n hn => Or.inl (hv n hn)) h)
  have widen : ∀ {α : Type} {P : Site β → Prop} {x : Fs β α} {Q : α → Site β → Prop},
      Within false (Pending codec X false) P x Q → Within false (Recoverable codec X false) P x Q :=
    fun hx => hx.mono (fun _ h => h) (fun _ _ h => h) (fun _ _ h => by simp at h) fun _ h => Or.inl h
  refine Runs.bind_runs (R := fun _ => Phased codec X (fun n i => X.Home n i ∨ X.Away n i) phase false)
    ?_ fun _ => ?_
  · rcases hphase with rfl | rfl
    · exact Runs.pure_runs fun s h => h
    · exact widen uninstall_all
  refine Runs.bind_runs (widen (putBack_all hphase)) fun _ => ?_
  refine Runs.bind_runs (point_within stop) fun _ => ?_
  refine Runs.bind_runs (sweep_staging stop) fun _ => ?_
  refine Runs.bind_runs (R := fun _ => Swept codec X (some (X.journal phase)) false false) ?_
    fun _ => sweep_journal stop fun s h => Or.inr h.items
  refine attempt_remove (fun s h => stop s h.items) (fun s h => h) ?_
  rintro s hp ⟨⟨v, hv, h⟩, hgone⟩
  refine ⟨⟨v, hv, h.unlink_aside fun n hn => (hv n hn).2⟩, fun hf => ?_⟩
  rw [Disk.node_unlink, if_neg]
  · exact hgone hf
  · exact (apart_of_head X.aside_ne_staging).1

end RollBack

/-! Recovering. -/

/-- A recovery from `s` deletes no old item: each whose name is also a new item's is
    aside, unless the new one is still staged. -/
def Restartable (codec : Codec β) (s : Site β) : Prop :=
  ∀ state, journalOf codec s.disk = .ok (some state) → state.phase = .installing →
    ∀ n ∈ state.old, n ∈ state.new →
      s.disk.node [state.staging, n] ≠ none ∨ s.disk.node [state.aside, n] ≠ none

def restartable (codec : Codec β) (s : Site β) : Bool :=
  match journalOf codec s.disk with
  | .ok (some state) => decide (state.phase = .installing → ∀ n ∈ state.old, n ∈ state.new →
      s.disk.node [state.staging, n] ≠ none ∨ s.disk.node [state.aside, n] ≠ none)
  | _ => true

theorem restartable_iff : restartable codec s = true ↔ Restartable codec s := by
  unfold restartable Restartable
  split
  · next state hj =>
    rw [decide_eq_true_iff]
    refine ⟨fun h state' hs => ?_, fun h => h state hj⟩
    obtain rfl : state = state' := by simpa using hj.symm.trans hs
    exact h
  · next hj => exact ⟨fun _ state hs => absurd hs (hj state), fun _ => rfl⟩

instance (s : Site β) : Decidable (Restartable codec s) := decidable_of_iff _ restartable_iff

theorem Restartable.safe (hr : Restartable codec s)
    (h : At codec X v (some (X.journal .installing)) c s) (hn : n ∈ managedItems) :
    X.Safe n (v n) := by
  intro hold hnew
  rcases hr _ (h.has_journal (by simp)) rfl n hold hnew with h' | h'
  · exact Or.inl fun he => h' ((h.shelves.node (a := .staged) hn).mpr he)
  · exact Or.inr fun he => h' ((h.shelves.node (a := .kept) hn).mpr he)

/-- A recovery that finds a journal takes the branch of its phase. -/
theorem recover_branch {Q : Recovered → Site β → Prop} (hphase : ∀ text, phase ≠ .other text)
    (stop : ∀ s, P s → I s) (has : ∀ s, P s → ∃ v, At codec X v (some (X.journal phase)) c s)
    (hrun : Within false I P
      (if (X.journal phase).phase = .committed then do
        cleanupCommitted (X.journal phase)
        pure .completed
      else do
        rollBack (X.journal phase)
        pure .rolledBack) Q) : Within false I P (recoverLocked codec) Q := by
  refine Runs.bind_runs (readJournal_within stop (j := some (X.journal phase)) fun s hs => ?_)
    fun j => ?_
  · obtain ⟨v, h⟩ := has s hs
    exact h.has_journal hphase
  · refine Runs.conseq (P := fun s => j = some (X.journal phase) ∧ P s) (Runs.assuming ?_)
      (fun s h => ⟨h.2, h.1⟩) (fun _ _ h => h)
    rintro rfl
    exact hrun

/-- **Recovery with a journal.** -/
theorem recover_pending :
    Within false (Recoverable codec X c) (fun s => Pending codec X c s ∧ Restartable codec s)
      (recoverLocked codec) fun _ => Swept codec X none c false := by
  intro w hf hp
  obtain ⟨hpending, hr⟩ := hp
  -- one run for each phase
  suffices h : ∃ P : Site β → Prop, P w.state ∧ Within false (Recoverable codec X c) P
      (recoverLocked codec) fun _ => Swept codec X none c false by
    obtain ⟨P, hP, hrun⟩ := h
    exact hrun w hf hP
  cases hpending with
  | moving v hv h =>
    refine ⟨Phased codec X (Begun X .movingOld) .movingOld false, ⟨v, hv, h⟩, ?_⟩
    refine recover_branch (by simp) (fun s ⟨v, hv, h⟩ => Or.inl (.moving v hv h))
      (fun s ⟨v, _, h⟩ => ⟨v, h⟩) ?_
    exact Runs.bind_runs (rollBack_within (Or.inl rfl)) fun _ => Runs.pure_runs fun s h => h
  | installing v hv h =>
    refine ⟨Phased codec X (Begun X .installing) .installing false,
      ⟨v, fun n hn => ⟨hv n hn, hr.safe h hn⟩, h⟩, ?_⟩
    refine recover_branch (by simp)
      (fun s ⟨v, hv, h⟩ => Or.inl (.installing v (fun n hn => (hv n hn).1) h))
      (fun s ⟨v, _, h⟩ => ⟨v, h⟩) ?_
    exact Runs.bind_runs (rollBack_within (Or.inr rfl)) fun _ => Runs.pure_runs fun s h => h
  | committed v hv h =>
    have stop : ∀ s, Landed codec X (some (X.journal .committed)) true s →
        Recoverable codec X true s := fun s ⟨v, hv, h⟩ => Or.inl (.committed v hv h)
    refine ⟨Landed codec X (some (X.journal .committed)) true, ⟨v, hv, h⟩, ?_⟩
    refine recover_branch (by simp) stop (fun s ⟨v, _, h⟩ => ⟨v, h⟩) ?_
    exact Runs.bind_runs (cleanup_within stop fun s h => Or.inr h.items) fun _ =>
      Runs.pure_runs fun s h => h

theorem recover_nothing (none : ∀ s, P s → journalOf codec s.disk = .ok none) :
    Within false P P (recoverLocked codec) fun r s => r = .nothing ∧ P s := by
  refine Runs.bind_runs (readJournal_within (fun _ h => h) none) fun j => ?_
  refine Runs.conseq (P := fun s => j = .none ∧ P s) (Runs.assuming ?_)
    (fun s h => ⟨h.2, h.1⟩) (fun _ _ h => h)
  rintro rfl
  exact Runs.pure_runs fun s h => ⟨rfl, h⟩

end Sesame.Ops

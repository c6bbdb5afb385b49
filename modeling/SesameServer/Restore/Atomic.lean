import SesameServer.Restore.Recovery

/- A replacement either happens or does not, wherever it stops.

   1. `Midway` is what `swap` can leave behind once its journal is in place. It is a
      state recovery is safe from: no old item has come back yet.
   2. `swap_runs` walks through `swap`: the state after each statement, one rule for
      each loop, and `orFinish_runs` for the errors that are handled by undoing.
   3. `swap_atomic`: after a crash and a recovery, or after such an error, the old items
      are in place, or the new ones with the old ones aside, and nothing else changed.
      Before the first journal is in place a crash leaves the staging directory. -/
namespace Sesame.Ops

open Crash FileTree

variable {α β : Type} {codec : Codec β} {X : Setup β} {faults : Bool}

/-! Where an item is on its way. -/

namespace Setup

variable (X : Setup β) (n : Bytes) (i : Item β)

def Unmoved : Prop := i .place = X.was n ∧ i .staged = X.will n ∧ i .kept = Tree.empty

/-- The old item is aside, the new one still staged. -/
def Cleared : Prop := i .place = Tree.empty ∧ i .staged = X.will n ∧ i .kept = X.was n

def Installed : Prop := i .place = X.will n ∧ i .staged = Tree.empty ∧ i .kept = X.was n

variable {X n i}

theorem Unmoved.cleared (h : X.Unmoved n i) (hn : n ∈ managedItems) (hold : n ∉ X.old) :
    X.Cleared n i := by
  have hwas := X.was_of_not_old hn hold
  exact ⟨h.1.trans hwas, h.2.1, h.2.2.trans hwas.symm⟩

theorem Cleared.installed (h : X.Cleared n i) (hn : n ∈ managedItems) (hnew : n ∉ X.new) :
    X.Installed n i := by
  have hwill := X.will_of_not_new hn hnew
  exact ⟨h.1.trans hwill.symm, h.2.1.trans hwill, h.2.2⟩

theorem Installed.undone (h : X.Installed n i) (hn : n ∈ managedItems) : X.Undone n i := by
  refine Or.inr ⟨h.2.2, fun hs => ?_⟩
  rcases hs with hs | hs
  · exact absurd h.2.1 hs
  · exact h.1.trans (X.will_of_not_new hn hs)

def start (X : Setup β) : Shelves β := fun n a =>
  match a with
  | .place => X.was n
  | .staged => X.will n
  | .kept => Tree.empty

end Setup

/-! What `swap` leaves behind. -/

/-- A journal is in place and no old item has been put back. -/
def Midway (codec : Codec β) (X : Setup β) (s : Site β) : Prop :=
  ∃ c, Pending codec X c s ∧ Restartable codec s

variable {v : Shelves β} {s : Site β} {d : Disk Bytes β} {w : World (Site β)} {P C : Site β → Prop}

theorem restartable_of {c : Bool} {phase : Phase}
    (h : At codec X v (some (X.journal phase)) c s) (hphase : ∀ text, phase ≠ .other text)
    (kept : phase = .installing → ∀ n ∈ managedItems, v n .kept = X.was n) :
    Restartable codec s := by
  intro state hstate hinst n hold _
  rw [h.has_journal hphase] at hstate
  obtain rfl : X.journal phase = state := by simpa using hstate
  obtain ⟨hn, hwas⟩ := X.mem_old.mp hold
  refine Or.inr fun hnone => hwas ?_
  rw [← kept hinst n hn]
  exact (h.shelves.node (a := .kept) hn).mp hnone

theorem midway_moving (h : At codec X v (some (X.journal .movingOld)) false s)
    (hv : ∀ n ∈ managedItems, X.Unmoved n (v n) ∨ X.Cleared n (v n)) : Midway codec X s := by
  refine ⟨false, .moving v (fun n hn => ?_) h, restartable_of h (by simp) (by simp)⟩
  rcases hv n hn with hi | hi
  · exact Or.inl ⟨hi.1, hi.2.2⟩
  · exact Or.inr ⟨hi.1, hi.2.2⟩

theorem midway_installing (h : At codec X v (some (X.journal .installing)) false s)
    (hv : ∀ n ∈ managedItems, X.Cleared n (v n) ∨ X.Installed n (v n)) : Midway codec X s := by
  refine ⟨false, .installing v (fun n hn => ?_) h, restartable_of h (by simp) fun _ n hn => ?_⟩
  · rcases hv n hn with hi | hi
    · exact Setup.undone_of (Or.inr ⟨hi.1, hi.2.2⟩)
    · exact hi.undone hn
  · rcases hv n hn with hi | hi
    · exact hi.2.2
    · exact hi.2.2

theorem midway_committed (h : Landed codec X (some (X.journal .committed)) true s) :
    Midway codec X s := by
  obtain ⟨v, hv, hs⟩ := h
  exact ⟨true, .committed v hv hs, restartable_of hs (by simp) (by simp)⟩

/-- The directory for the old items is there and nothing else has happened. -/
structure Opened (codec : Codec β) (X : Setup β) (s : Site β) : Prop where
  state : At codec X X.start none false s
  aside : s.disk.node [X.aside] = some .dir
  staging : s.disk.under [X.staging] = X.disk.under [X.staging]

/-- Every state `swap` can stop in after it has found a name for the old items. -/
def InSwap (codec : Codec β) (X : Setup β) (s : Site β) : Prop :=
  Opened codec X s ∨ Midway codec X s ∨ Swept codec X none true false s

/-- The errors `swap` returns: one that was handled by undoing its work leaves it undone,
    or completed. -/
def Reported (codec : Codec β) (d : Disk Bytes β) (staging : Bytes) (e : Failure)
    (w : World (Site β)) : Prop :=
  (∀ cause, e = .handled cause → ∃ (X : Setup β) (c : Bool), X.disk = d ∧ X.staging = staging ∧
    Swept codec X none c false w.state) ∧
  ∀ cause recovery, e ≠ .bothFailed cause recovery

theorem reported_fault {staging : Bytes} : Reported codec d staging .fault w := by simp [Reported]

/-! The statements of `swap`. -/

section Journal

variable {I : Site β → Prop} {v : Shelves β} {j : Option Journal} {c c' : Bool} {state : Journal}

theorem putJournal_within (hc : (c || decide (state.phase = .committed)) = c')
    {K : Disk Bytes β → Prop} (hK : ∀ {d d'}, At.JournalOnly d d' → K d → K d')
    (before : ∀ s, At codec X v j c s → K s.disk → I s) : Within faults I
      (fun s => (At codec X v j c s ∧ K s.disk) ∧
        s.disk.node [journalTemp] = some (.file (codec.encode state)))
      (putJournal state) fun _ s => At codec X v (some state) c' s ∧ K s.disk := by
  have run : ∀ s : Site β, At codec X v j c s →
      s.disk.node [journalTemp] = some (.file (codec.encode state)) →
      ∃ hp parent outside, s.disk.rename [journalTemp] [] journalName =
        .ok (s.disk.move [journalTemp] [] journalName hp parent outside) := by
    intro s h written
    have htarget : s.disk.node ([] ++ [journalName]) ≠ some .dir := by
      rw [List.nil_append, h.journal]
      cases j <;> simp
    exact ⟨_, _, _, Disk.rename_file written s.disk.root htarget (by simp)
      (apart_of_head At.temp_ne_name).1⟩
  refine Runs.op_runs (fun s a s' hs heq => ?_) (fun w e _ hs heq => ?_)
    (fun w hf hq hs => ⟨rfl, hf, hq, before _ hs.1.1 hs.1.2⟩) (fun s hs => before s hs.1.1 hs.1.2)
  · obtain ⟨⟨h, hk⟩, written⟩ := hs
    obtain ⟨hp, parent, outside, hrun⟩ := run s h written
    simp only [hrun, h.ghost, hc, Except.ok.injEq, Prod.mk.injEq] at heq
    obtain ⟨-, rfl⟩ := heq
    exact ⟨h.put_journal written, hK (At.move_journalOnly hp parent outside) hk⟩
  · obtain ⟨hp, parent, outside, hrun⟩ := run _ hs.1.1 hs.2
    simp [hrun] at heq

theorem writeJournal_within (hc : (c || decide (state.phase = .committed)) = c')
    {K : Disk Bytes β → Prop} (hK : ∀ {d d'}, At.JournalOnly d d' → K d → K d')
    (before : ∀ s, At codec X v j c s → K s.disk → I s)
    (after : ∀ s, At codec X v (some state) c' s → K s.disk → I s) :
    Within faults I (fun s => At codec X v j c s ∧ K s.disk) (writeJournal codec state)
      fun _ s => At codec X v (some state) c' s ∧ K s.disk := by
  have write : ∀ content : β, Within faults I (fun s => At codec X v j c s ∧ K s.disk)
      (change (·.write [] journalTemp content)) fun _ s => (At codec X v j c s ∧ K s.disk) ∧
        s.disk.node [journalTemp] = some (.file content) := by
    refine fun content => change_within (fun s h => before s h.1 h.2) fun s ⟨h, hk⟩ => ?_
    refine ⟨_, Disk.write_run s.disk.root h.temp content, ⟨h.write_temp, ?_⟩, ?_⟩
    · exact hK (At.write_journalOnly Setup.temp_mem s.disk.root h.temp) hk
    · rw [Disk.node_put, if_pos (by simp)]
  have stop : ∀ s : Site β, (At codec X v j c s ∧ K s.disk) ∧
      s.disk.node [journalTemp] = some (.file (codec.encode state)) → I s :=
    fun s h => before s h.1.1 h.1.2
  refine Runs.bind_runs ((write codec.blank).weaken fun _ _ h => h.1) fun _ => ?_
  refine Runs.bind_runs (write (codec.encode state)) fun _ => ?_
  refine Runs.bind_runs (point_within stop) fun _ => ?_
  refine Runs.bind_runs (point_within stop) fun _ => ?_
  refine Runs.bind_runs (putJournal_within hc hK before) fun _ => ?_
  exact point_within fun s h => after s h.1 h.2

end Journal

theorem dirs_keep {d' : Disk Bytes β} (only : At.JournalOnly d d') :
    d'.node [X.aside] = d.node [X.aside] ∧ d'.under [X.staging] = d.under [X.staging] :=
  ⟨Disk.node_of_under (only _ fun _ hm => (apart_of_head (X.aside_ne_journal hm)).symm),
    only _ fun _ hm => (apart_of_head (X.staging_ne_journal hm)).symm⟩

section Handled

variable (crash : ∀ s, Midway codec X s → C s) (any : faults = true → ∀ s, C s)
include crash any

/-- A program that is stopped only midway, with its errors handled. -/
theorem orFinish_runs {x : Fs β α} {Q : α → Site β → Prop}
    (hx : Within faults (Midway codec X) P x Q) :
    Runs faults P (orFinish codec x) Q (Reported codec X.disk X.staging) C := by
  refine Runs.onError_runs (I := fun _ s => faults = true ∧ ∃ c, Pending codec X c s ∧
    Restartable codec s) (hx.crashing crash)
    (fun e w h => ⟨h.2.2.1, h.2.1, h.2.2.2⟩) fun cause => ?_
  refine Runs.assuming fun hfaults => Runs.exists_pre fun c => ?_
  refine Runs.bind_runs (R := fun _ => Swept codec X none c false) ?_ fun _ => ?_
  · refine Runs.onError_runs (I := fun _ _ => False) (recover_pending.crashing
      fun s _ => any hfaults s) (fun e w h => by simp at h) ?_
    exact fun e w _ h => h.elim
  · refine Runs.fail_runs fun w _ h => ⟨fun cause' _ => ⟨X, c, rfl, rfl, h⟩, by simp⟩

/-- The first loop: every old item goes aside. -/
theorem setAside_all : Runs faults
      (fun s => At codec X X.start (some (X.journal .movingOld)) false s ∧
        s.disk.node [X.aside] = some .dir)
      (forEach X.old (setAside codec X.aside)) (fun _ => Phased codec X X.Cleared .movingOld false)
      (Reported codec X.disk X.staging) C := by
  refine (forEach_items (J := fun v s => At codec X v (some (X.journal .movingOld)) false s ∧
    s.disk.node [X.aside] = some .dir) X.Unmoved X.Cleared (fun n hn => (X.mem_old.mp hn).1)
    X.nodup_old (fun _ hn hold _ h => h.cleared hn hold) fun v n hold hi hall => ?_).conseq
    (fun s h => ⟨X.start, fun _ _ => ⟨rfl, rfl, rfl⟩, h⟩) (fun _ s ⟨v, hv, h⟩ => ⟨v, hv, h.1⟩)
  obtain ⟨hn, hwas⟩ := X.mem_old.mp hold
  have hcleared : X.Cleared n ((v n).move .place .kept) := ⟨rfl, hi.2.1, hi.1⟩
  refine Runs.bind_runs (orFinish_runs crash any (rename_within (a := .place) (b := .kept) hn (by simp)
    (by rwa [hi.1]) hi.2.2 fun s h => midway_moving h hall)) fun _ => ?_
  refine (orFinish_runs crash any (point_within fun s h => midway_moving h.1 ?_)).weaken
    fun _ s h => ⟨_, hcleared, h⟩
  exact forall_update (p := fun m i => X.Unmoved m i ∨ X.Cleared m i)
    (fun m hm _ => hall m hm) (Or.inr hcleared)

theorem install_all : Runs faults (Phased codec X X.Cleared .installing false)
      (forEach X.new (install codec X.staging)) (fun _ => Phased codec X X.Installed .installing false)
      (Reported codec X.disk X.staging) C := by
  refine forEach_items X.Cleared X.Installed (fun n hn => (X.mem_new.mp hn).1) X.nodup_new
    (fun _ hn hnew _ h => h.installed hn hnew) fun v n hnew hi hall => ?_
  obtain ⟨hn, hwill⟩ := X.mem_new.mp hnew
  have hinstalled : X.Installed n ((v n).move .staged .place) := ⟨hi.2.1, rfl, hi.2.2⟩
  refine Runs.bind_runs (orFinish_runs crash any (rename_place (a := .staged) hn (by simp)
    (by rwa [hi.2.1]) hi.1 fun s h => midway_installing h hall)) fun _ => ?_
  refine (orFinish_runs crash any (point_within fun s h => midway_installing h ?_)).weaken
    fun _ s h => ⟨_, hinstalled, h⟩
  exact forall_update (p := fun m i => X.Cleared m i ∨ X.Installed m i)
    (fun m hm _ => hall m hm) (Or.inr hinstalled)

theorem advance_runs {phase next : Phase} {c : Bool} {p : Bytes → Item β → Prop}
    (hc : decide (next = .committed) = c)
    (before : ∀ s, Phased codec X p phase false s → Midway codec X s)
    (after : ∀ s, Phased codec X p next c s → Midway codec X s) :
    Runs faults (Phased codec X p phase false) (orFinish codec (writeJournal codec (X.journal next)))
      (fun _ => Phased codec X p next c) (Reported codec X.disk X.staging) C := by
  have hghost : (false || decide ((X.journal next).phase = .committed)) = c := hc
  refine Runs.exists_pre fun v => Runs.assuming fun hv => ?_
  exact (orFinish_runs crash any (writeJournal_within hghost (K := fun _ => True)
    (fun _ _ => trivial) (fun s h _ => before s ⟨v, hv, h⟩) fun s h _ => after s ⟨v, hv, h⟩)).conseq
    (fun s h => ⟨h, trivial⟩) (fun _ s h => ⟨v, hv, h.1⟩)

end Handled

/-! Before the first journal. -/

theorem scan_within (place : ∀ s, P s → ∀ n ∈ managedItems, s.disk.node [n] = X.disk.node [n])
    (staged : ∀ s, P s → ∀ n ∈ managedItems,
      s.disk.node [X.staging, n] = X.disk.node [X.staging, n]) :
    ∀ l : List Bytes, (∀ n ∈ l, n ∈ managedItems) →
      Within faults P P (scan X.staging l) fun r s =>
        r = (l.filter fun n => (X.disk.node [n]).isSome,
          l.filter fun n => (X.disk.node [X.staging, n]).isSome) ∧ P s
  | [], _ => Runs.pure_runs fun _ h => ⟨rfl, h⟩
  | n :: l, hl => by
    have hn := hl n List.mem_cons_self
    have read : ∀ p, (∀ s, P s → s.disk.node p = X.disk.node p) →
        Within faults P P (existsAt p) fun r s => r = (X.disk.node p).isSome ∧ P s := by
      intro p hp
      refine (look_within fun _ h => h).weaken ?_
      rintro r s ⟨hs, rfl⟩
      exact ⟨by rw [hp s hs], hs⟩
    refine Runs.bind_runs (read [n] fun s hs => place s hs n hn) fun r => Runs.assuming fun hr => ?_
    refine Runs.bind_runs (read [X.staging, n] fun s hs => staged s hs n hn) fun r' =>
      Runs.assuming fun hr' => ?_
    refine Runs.bind_runs (scan_within place staged l fun m hm => hl m (List.mem_cons_of_mem _ hm))
      fun found => Runs.assuming fun hfound => ?_
    subst hr hr' hfound
    exact Runs.pure_runs fun s h => ⟨by simp only [List.filter_cons], h⟩

/-- What a replacement needs to begin with: the staging directory under a name of the
    usual form, and no journal. -/
structure Ready (d : Disk Bytes β) (staging : Bytes) : Prop where
  name : ∃ rest, staging = stagingPrefix ++ rest ∧ Plain rest
  journal : d.node [journalName] = none
  temp : d.node [journalTemp] ≠ some .dir

theorem candidate_name {stamp : Bytes} (hstamp : Plain stamp) (k : Nat) :
    ∃ rest, candidate stamp k = asidePrefix ++ rest ∧ Plain rest := by
  refine ⟨_, rfl, hstamp.append ?_⟩
  split
  · exact Plain.append (by decide) (plain_decimal k)
  · decide

theorem opened_put (hd : X.disk = d) (journal : d.node [journalName] = none)
    (temp : d.node [journalTemp] ≠ some .dir) {parent leaf} :
    Opened codec X ⟨d.put [] X.aside .dir parent leaf, false⟩ := by
  subst hd
  have same : ∀ r, ¬r <+: [X.aside] →
      (X.disk.put [] X.aside .dir parent leaf).under r = X.disk.under r := fun r hr =>
    Disk.under_put hr
  have entry : ∀ {n : Bytes} {p : List Bytes}, X.aside ≠ n →
      (X.disk.put [] X.aside .dir parent leaf).under (n :: p) = X.disk.under (n :: p) :=
    fun h => same _ (apart_of_head h).2
  have inside : ∀ n, (X.disk.put [] X.aside .dir parent leaf).under [X.aside, n] =
      X.disk.under [X.aside, n] := fun n => same _ fun h => absurd h.length_le (by simp)
  have empty : ∀ n, X.disk.under [X.aside, n] = Tree.empty := fun n => by
    funext y
    exact congrFun (Disk.under_of_none X.fresh) (n :: y)
  refine ⟨⟨⟨fun n hn a => ?_, fun q hq => ?_⟩, ?_, ?_, rfl⟩, ?_, entry X.aside_ne_staging⟩
  · cases a with
    | place => exact entry (X.aside_ne_managed hn)
    | staged => exact entry X.aside_ne_staging
    | kept => exact (inside n).trans (empty n)
  · cases hq with
    | entry _ _ _ aside => exact entry aside.symm
    | aside _ => exact inside _
  · exact (Disk.node_of_under (entry (X.aside_ne_journal Setup.name_mem))).trans journal
  · show (X.disk.put [] X.aside .dir parent leaf).node [journalTemp] ≠ _
    rw [Disk.node_of_under (entry (X.aside_ne_journal Setup.temp_mem))]
    exact temp
  · show (X.disk.put [] X.aside .dir parent leaf).node [X.aside] = _
    rw [Disk.node_put, if_pos (by simp)]

variable {d : Disk Bytes β} {staging stamp : Bytes}

theorem firstFree_runs (ready : Ready d staging) (hstamp : Plain stamp) : ∀ attempts : List Nat,
    Runs faults (fun s => s = ⟨d, false⟩) (firstFree stamp attempts)
      (fun aside s => ∃ X : Setup β, (X.disk = d ∧ X.staging = staging ∧ X.aside = aside) ∧
        Opened codec X s)
      (Reported codec d staging) (fun s => s = ⟨d, false⟩)
  | [] => Runs.fail_runs fun w _ _ => by simp [Reported]
  | k :: attempts => by
    refine Runs.bind_runs (R := fun created s => if created then ∃ X : Setup β,
      (X.disk = d ∧ X.staging = staging ∧ X.aside = candidate stamp k) ∧ Opened codec X s
      else s = ⟨d, false⟩) ?_ fun created => ?_
    · refine Runs.op_runs (fun s a s' hs h => ?_) (fun w e _ _ h => ?_)
        (fun w _ _ _ => reported_fault) (fun s h => h)
      · subst hs
        cases hm : d.mkdir [] (candidate stamp k) with
        | ok d' =>
          obtain ⟨hfree, parent, leaf, rfl⟩ := Disk.mkdir_ok hm
          simp only [hm, Except.ok.injEq, Prod.mk.injEq] at h
          obtain ⟨rfl, rfl⟩ := h
          let X : Setup β := ⟨d, staging, candidate stamp k, ready.name, candidate_name hstamp k, hfree⟩
          exact ⟨X, ⟨rfl, rfl, rfl⟩, opened_put rfl ready.journal ready.temp⟩
        | error e =>
          cases e <;> simp only [hm, Except.ok.injEq, Prod.mk.injEq, reduceCtorEq] at h
          obtain ⟨rfl, rfl⟩ := h
          rfl
      · -- an error of the call itself is returned as it is
        split at h <;> cases h
        simp [Reported]
    · cases created with
      | true => exact Runs.pure_runs fun s h => h
      | false => exact firstFree_runs ready hstamp attempts

/-! The whole replacement. -/

def Stopped (codec : Codec β) (d : Disk Bytes β) (staging : Bytes) (s : Site β) : Prop :=
  s = ⟨d, false⟩ ∨ ∃ X : Setup β, X.disk = d ∧ X.staging = staging ∧ InSwap codec X s

theorem Within.reported {x : Fs β α} {Q : α → Site β → Prop}
    {I : Site β → Prop} (hx : Within faults I P x Q) (crash : ∀ s, I s → C s) :
    Runs faults P x Q (Reported codec d staging) C :=
  hx.mono (fun _ h => h) (fun _ _ h => h) (fun _ _ h => h.1 ▸ reported_fault) crash

/-- The first journal. An error here is returned as it is, and the new directory goes. -/
theorem firstJournal_runs (crash : ∀ s, Opened codec X s ∨ Midway codec X s → C s)
    (any : faults = true → ∀ s, C s) : Runs faults (Opened codec X)
      (onError (writeJournal codec (X.journal .movingOld)) fun e => do
        attempt (remove [X.aside])
        fail e)
      (fun _ s => At codec X X.start (some (X.journal .movingOld)) false s ∧
        s.disk.node [X.aside] = some .dir)
      (Reported codec X.disk X.staging) C := by
  have written : Within faults (fun s => Opened codec X s ∨ Midway codec X s)
      (fun s => At codec X X.start none false s ∧ s.disk.node [X.aside] = some .dir ∧
        s.disk.under [X.staging] = X.disk.under [X.staging])
      (writeJournal codec (X.journal .movingOld))
      fun _ s => At codec X X.start (some (X.journal .movingOld)) false s ∧
        s.disk.node [X.aside] = some .dir ∧
        s.disk.under [X.staging] = X.disk.under [X.staging] :=
    writeJournal_within rfl
      (K := fun d => d.node [X.aside] = some .dir ∧ d.under [X.staging] = X.disk.under [X.staging])
      (fun only hK => ⟨(dirs_keep only).1.trans hK.1, (dirs_keep only).2.trans hK.2⟩)
      (fun s h hK => Or.inl ⟨h, hK.1, hK.2⟩)
      (fun s h _ => Or.inr (midway_moving h fun n _ => Or.inl ⟨rfl, rfl, rfl⟩))
  refine Runs.onError_runs (I := fun e _ => (e = .fault ∧ faults = true) ∧ True)
    (written.mono (fun s h => ⟨h.state, h.aside, h.staging⟩) (fun _ _ h => ⟨h.1, h.2.1⟩)
      (fun _ _ h => h) crash) (fun e w h => ⟨h.2.2.1, ⟨h.1, h.2.1⟩, trivial⟩) fun e => ?_
  refine Runs.assuming fun ⟨he, hfaults⟩ => ?_
  subst he
  exact Runs.bind_runs (attempt_remove (Q := fun _ => True) (fun s _ => any hfaults s)
    (fun _ _ => trivial) fun _ _ _ => trivial) fun _ => Runs.fail_runs fun _ _ _ => reported_fault

theorem swap_runs (ready : Ready d staging) (hstamp : Plain stamp) :
    Runs faults (fun s => s = ⟨d, false⟩) (swap codec staging stamp)
      (fun aside s => faults = false → ∃ X : Setup β,
        (X.disk = d ∧ X.staging = staging ∧ X.aside = aside) ∧ Swept codec X none true false s)
      (Reported codec d staging) (fun s => faults = false → Stopped codec d staging s) := by
  refine Runs.bind_runs ((firstFree_runs ready hstamp (List.range 100)).crashing
    fun s h _ => Or.inl h) fun aside => ?_
  refine Runs.exists_pre fun X => Runs.assuming ?_
  rintro ⟨rfl, rfl, rfl⟩
  have inSwap : ∀ {s : Site β}, InSwap codec X s →
      faults = false → Stopped codec X.disk X.staging s := fun h _ => Or.inr ⟨X, rfl, rfl, h⟩
  have crash : ∀ s : Site β, Midway codec X s →
      faults = false → Stopped codec X.disk X.staging s := fun s h => inSwap (Or.inr (Or.inl h))
  have any : faults = true → ∀ s : Site β,
      faults = false → Stopped codec X.disk X.staging s := fun hf s hn => by simp [hf] at hn
  have moving : ∀ s, Phased codec X X.Cleared .movingOld false s → Midway codec X s :=
    fun s ⟨v, hv, h⟩ => midway_moving h fun n hn => Or.inr (hv n hn)
  have cleared : ∀ s, Phased codec X X.Cleared .installing false s → Midway codec X s :=
    fun s ⟨v, hv, h⟩ => midway_installing h fun n hn => Or.inl (hv n hn)
  have installed : ∀ s, Phased codec X X.Installed .installing false s → Midway codec X s :=
    fun s ⟨v, hv, h⟩ => midway_installing h fun n hn => Or.inr (hv n hn)
  have landed : ∀ s, Phased codec X X.Installed .committed true s →
      Landed codec X (some (X.journal .committed)) true s :=
    fun s ⟨v, hv, h⟩ => ⟨v, fun n hn => ⟨(hv n hn).1, (hv n hn).2.2⟩, h⟩
  have committed := fun s h => midway_committed (landed s h)
  refine Runs.bind_runs ((scan_within (P := Opened codec X)
    (fun s h n hn => Disk.node_of_under (h.state.shelves.shelf n hn .place))
    (fun s h n hn => Disk.node_of_under (h.state.shelves.shelf n hn .staged))
    managedItems fun _ h => h).reported fun s h => inSwap (Or.inl h)) fun found =>
    Runs.assuming fun hfound => ?_
  subst hfound
  refine Runs.bind_runs (firstJournal_runs (fun s h => inSwap (h.imp_right Or.inl)) any) fun _ => ?_
  refine Runs.bind_runs (orFinish_runs crash any (point_within fun s h =>
    midway_moving h.1 fun n _ => Or.inl ⟨rfl, rfl, rfl⟩)) fun _ => ?_
  refine Runs.bind_runs (setAside_all crash any) fun _ => ?_
  refine Runs.bind_runs (orFinish_runs crash any (point_within moving)) fun _ => ?_
  refine Runs.bind_runs (advance_runs crash any rfl moving cleared) fun _ => ?_
  refine Runs.bind_runs (orFinish_runs crash any (point_within cleared)) fun _ => ?_
  refine Runs.bind_runs (install_all crash any) fun _ => ?_
  refine Runs.bind_runs (orFinish_runs crash any (point_within installed)) fun _ => ?_
  refine Runs.bind_runs (advance_runs crash any rfl installed committed) fun _ => ?_
  refine Runs.bind_runs ((point_within committed).reported crash) fun _ => ?_
  refine Runs.bind_runs (((cleanup_within (I := fun s => Midway codec X s ∨
    Swept codec X none true faults s) (fun s h => Or.inl (midway_committed h))
    fun s h => Or.inr h).reported ?_).conseq landed (fun _ _ h => h)) fun _ => ?_
  · rintro s (h | h) hf
    · exact crash s h hf
    · exact inSwap (Or.inr (Or.inr (hf ▸ h))) hf
  · exact Runs.pure_runs fun s h hf => ⟨X, ⟨rfl, rfl, rfl⟩, hf ▸ h⟩

/-! What is left in the end, said of the disk alone. -/

/-- The old items are in place or, after a commit, the new ones, with exactly the old
    ones in `aside`; the journal and the staging directory are gone, and no other entry
    of the data directory has changed. -/
structure Settled (d : Disk Bytes β) (staging aside : Bytes) (s : Site β) : Prop where
  fresh : d.node [aside] = none
  items : ∀ n ∈ managedItems,
    s.disk.under [n] = if s.committed then d.under [staging, n] else d.under [n]
  kept : s.committed = true → ∀ n,
    s.disk.under [aside, n] = if n ∈ managedItems then d.under [n] else Tree.empty
  journal : s.disk.node [journalName] = none
  staged : s.disk.node [staging] = none
  others : ∀ n, n ∉ managedItems → n ∉ [journalName, journalTemp, staging, aside] →
    s.disk.under [n] = d.under [n]

/-- The old items are in place and staging is as it was, there is no journal, and no other
    entry has changed, though there may be a new one. -/
structure Untouched (d : Disk Bytes β) (staging aside : Bytes) (s : Site β) : Prop where
  items : ∀ n ∈ managedItems, s.disk.under [n] = d.under [n]
  staged : s.disk.under [staging] = d.under [staging]
  journal : s.disk.node [journalName] = none
  others : ∀ n, n ∉ managedItems → n ∉ [journalName, journalTemp, staging] →
    n ≠ aside ∨ d.node [n] ≠ none → s.disk.under [n] = d.under [n]

theorem Swept.settled {c : Bool} (h : Swept codec X none c false s) :
    Settled X.disk X.staging X.aside s := by
  obtain ⟨⟨v, hv, hs⟩, hstaging⟩ := h
  refine ⟨X.fresh, fun n hn => ?_, fun hc n => ?_, hs.journal, hstaging rfl, fun n hn hown => ?_⟩
  · have hplace := hs.shelves.shelf n hn .place
    have hfinal := hv n hn
    rw [hs.ghost]
    cases c with
    | true | false => exact hplace.trans hfinal.1
  · obtain rfl : c = true := hs.ghost.symm.trans hc
    split
    · next hn => exact (hs.shelves.shelf n hn .kept).trans (hv n hn).2
    · next hn =>
      refine (hs.shelves.still _ (.aside hn)).trans ?_
      funext y
      exact congrFun (Disk.under_of_none X.fresh) (n :: y)
  · simp only [List.mem_cons, List.not_mem_nil, or_false, not_or] at hown
    exact hs.shelves.still _ (.entry hn (by simp [Setup.journalFiles, hown.1, hown.2.1])
      hown.2.2.1 hown.2.2.2)

theorem Opened.untouched (h : Opened codec X s) : Untouched X.disk X.staging X.aside s := by
  refine ⟨fun n hn => h.state.shelves.shelf n hn .place, h.staging, h.state.journal,
    fun n hn hown hnew => ?_⟩
  simp only [List.mem_cons, List.not_mem_nil, or_false, not_or] at hown
  have haside : n ≠ X.aside := by
    rintro rfl
    exact hnew.elim (fun h' => h' rfl) (fun h' => h' X.fresh)
  exact h.state.shelves.still _ (.entry hn (by simp [Setup.journalFiles, hown.1, hown.2.1])
    hown.2.2 haside)

theorem journalOf_none {d : Disk Bytes β} (h : d.node [journalName] = none) :
    journalOf codec d = .ok none := by
  rw [journalOf, Disk.read, h]

/-- A recovery that finds no journal changes nothing. -/
theorem recover_none (h : s.disk.node [journalName] = none) :
    recoverLocked codec (.calm s) = .ok .nothing (.calm s) := by
  have hrun : Within false (· = s) (· = s) (recoverLocked codec) fun r t => r = .nothing ∧ t = s :=
    recover_nothing fun t ht => ht ▸ journalOf_none h
  obtain ⟨r, t, ht, rfl, rfl⟩ := (hrun.mono (fun _ h => h) (fun _ _ h => h)
    (fun _ _ h => by simp at h) (fun _ h => h)).completes rfl
  exact ht

/-- **A replacement left to itself.** The new items are in place and the old ones aside. -/
theorem swap_installs (ready : Ready d staging) (hstamp : Plain stamp) {aside : Bytes}
    (h : swap codec staging stamp (.calm ⟨d, false⟩) = .ok aside w) :
    Settled d staging aside w.state ∧ w.state.committed = true := by
  obtain ⟨X, ⟨rfl, rfl, rfl⟩, hswept⟩ := (swap_runs ready hstamp).returned rfl h rfl
  obtain ⟨v, -, hs⟩ := hswept.items
  exact ⟨hswept.settled, hs.ghost⟩

/-- **All or nothing.** Whether `swap` crashes at any point, with one recovery after it, or
    has an error that it handles by undoing its work: the old items are in place or, if a
    committed journal was put there, the new ones, and all traces but the kept old items
    are gone. Only a crash before the first journal leaves the staging directory as it was. -/
theorem swap_atomic (codec : Codec β) {d : Disk Bytes β} {staging stamp : Bytes}
    (ready : Ready d staging) (hstamp : Plain stamp) :
    (∀ k w, swap codec staging stamp (.crashing ⟨d, false⟩ k) = .error .crash w →
      ∃ r s aside, recoverLocked codec (.calm w.state) = .ok r (.calm s) ∧
        s.committed = w.state.committed ∧
        ((w.state.disk.node [journalName] = none ∧ w.state.committed = false) ∧
            Untouched d staging aside s ∨
          ¬(w.state.disk.node [journalName] = none ∧ w.state.committed = false) ∧
            Settled d staging aside s)) ∧
    ∀ k w e, swap codec staging stamp (.failing ⟨d, false⟩ k) = .error (.error e) w →
      (∀ cause recovery, e ≠ .bothFailed cause recovery) ∧
      ∀ cause, e = .handled cause → ∃ aside, Settled d staging aside w.state := by
  constructor
  · intro k w h
    rcases (swap_runs ready hstamp).crashed rfl h rfl with hw | ⟨X, rfl, rfl, hopened | hmid | hswept⟩
    · have hnone : w.state.disk.node [journalName] = none := hw ▸ ready.journal
      refine ⟨_, w.state, [], recover_none hnone, rfl, Or.inl ⟨⟨hnone, hw ▸ rfl⟩, ?_⟩⟩
      rw [hw]
      exact ⟨fun _ _ => rfl, rfl, ready.journal, fun _ _ _ _ => rfl⟩
    · have hnone : w.state.disk.node [journalName] = none := hopened.state.journal
      exact ⟨_, w.state, X.aside, recover_none hnone, rfl,
        Or.inl ⟨⟨hnone, hopened.state.ghost⟩, hopened.untouched⟩⟩
    · obtain ⟨c, hpending, hr⟩ := hmid
      obtain ⟨r, s, hrun, hswept⟩ := (recover_pending.mono (fun _ h => h) (fun _ _ h => h)
        (fun _ _ h => by simp at h) (fun _ h => h)).completes ⟨hpending, hr⟩
      obtain ⟨v, -, hs⟩ := hswept.items
      exact ⟨r, s, X.aside, hrun, hs.ghost.trans hpending.ghost.symm,
        Or.inr ⟨fun hno => hpending.journal hno.1, hswept.settled⟩⟩
    · obtain ⟨v, -, hs⟩ := hswept.items
      exact ⟨_, w.state, X.aside, recover_none hs.journal, rfl,
        Or.inr ⟨fun hno => by simp [hs.ghost] at hno, hswept.settled⟩⟩
  · intro k w e h
    obtain ⟨hhandled, hboth⟩ := (swap_runs ready hstamp).failed rfl h
    refine ⟨hboth, fun cause he => ?_⟩
    obtain ⟨X, c, rfl, rfl, hswept⟩ := hhandled cause he
    exact ⟨X.aside, hswept.settled⟩

/-! A data directory with one old and one new database. -/

namespace Demo

inductive Text where
  | blank
  | old
  | new
  | journal (j : Journal)
  deriving DecidableEq

def textCodec : Codec Text where
  encode := .journal
  decode
    | .journal j => some j
    | _ => none
  blank := .blank
  decode_encode _ _ := rfl

def nothing : Disk Bytes Text where
  node p := if p = [] then some .dir else none
  paths := [[]]
  listed p h := by
    by_cases hp : p = []
    · simp [hp]
    · simp [hp] at h
  root := rfl
  rooted p n h := by simp at h

def newDir : Bytes := stagingPrefix ++ utf8 "00"

def time : Bytes := utf8 "20260101T000000Z"

/-- The data directory when `swap` is called. -/
def before : Disk Bytes Text :=
  let steps := do
    let d ← nothing.write [] databaseName .old
    let d ← d.mkdir [] newDir
    d.write [newDir] databaseName .new
  match steps with
  | .ok d => d
  | .error _ => nothing

theorem ready : Ready before newDir :=
  ⟨⟨utf8 "00", rfl, by decide⟩, by decide +kernel, by decide +kernel⟩

theorem plain_time : Plain time := by decide

def stopped (k : Nat) : EStateM.Result (Stop Failure) (World (Site Text)) Bytes :=
  swap textCodec newDir time (.crashing ⟨before, false⟩ k)

def failed (k : Nat) : EStateM.Result (Stop Failure) (World (Site Text)) Bytes :=
  swap textCodec newDir time (.failing ⟨before, false⟩ k)

/-- After a crash right behind the creation of the aside directory there is no journal, and
    the recovery leaves the staging directory where it is. -/
theorem crash_leaves_staging :
    ∃ w r s, stopped 1 = .error .crash w ∧ recoverLocked textCodec (.calm w.state) = .ok r (.calm s) ∧
      s.committed = false ∧ s.disk.node [newDir] = some .dir := by
  have hstop : crashes (stopped 1) = true ∧
      (last (stopped 1)).state.disk.node [journalName] = none ∧
      (last (stopped 1)).state.committed = false ∧
      (last (stopped 1)).state.disk.node [newDir] = some .dir := by decide +kernel
  obtain ⟨hcrash, hjournal, hghost, hdir⟩ := hstop
  have hw := eq_crash hcrash
  generalize last (stopped 1) = w at hw hjournal hghost hdir
  exact ⟨w, _, w.state, hw, recover_none hjournal, hghost, hdir⟩

/-- A crash that is undone, one that is completed, and an error that is handled. -/
theorem swap_atomic_outcomes : (∃ w r s aside, stopped 30 = .error .crash w ∧
      recoverLocked textCodec (.calm w.state) = .ok r (.calm s) ∧ s.committed = false ∧
      Settled before newDir aside s) ∧
    (∃ w r s aside, stopped 37 = .error .crash w ∧
      recoverLocked textCodec (.calm w.state) = .ok r (.calm s) ∧ s.committed = true ∧
      Settled before newDir aside s) ∧
    ∃ w aside, failed 30 = .error (.error (.handled .fault)) w ∧
      Settled before newDir aside w.state := by
  obtain ⟨crash, error⟩ := swap_atomic textCodec ready plain_time
  have hundone : crashes (stopped 30) = true ∧
      (last (stopped 30)).state.disk.node [journalName] ≠ none ∧
      (last (stopped 30)).state.committed = false := by decide +kernel
  have hdone : crashes (stopped 37) = true ∧ (last (stopped 37)).state.committed = true := by
    decide +kernel
  have hfailed : returns (failed 30) = some (.handled .fault) := by decide +kernel
  refine ⟨?_, ?_, ?_⟩
  · obtain ⟨hstop, hjournal, hghost⟩ := hundone
    have hw := eq_crash hstop
    generalize last (stopped 30) = w at hw hjournal hghost
    obtain ⟨r, s, aside, hrun, hc, ⟨hno, -⟩ | ⟨-, hsettled⟩⟩ := crash 30 w hw
    · exact absurd hno.1 hjournal
    · exact ⟨w, r, s, aside, hw, hrun, hc.trans hghost, hsettled⟩
  · obtain ⟨hstop, hghost⟩ := hdone
    have hw := eq_crash hstop
    generalize last (stopped 37) = w at hw hghost
    obtain ⟨r, s, aside, hrun, hc, ⟨hno, -⟩ | ⟨-, hsettled⟩⟩ := crash 37 w hw
    · simp [hghost] at hno
    · exact ⟨w, r, s, aside, hw, hrun, hc.trans hghost, hsettled⟩
  · have hw := eq_error hfailed
    generalize last (failed 30) = w at hw
    obtain ⟨aside, hsettled⟩ := (error 30 w _ hw).2 .fault rfl
    exact ⟨w, aside, hw, hsettled⟩

theorem installed_calm : ∃ aside w, swap textCodec newDir time (.calm ⟨before, false⟩) = .ok aside w ∧
    Settled before newDir aside w.state ∧ w.state.committed = true := by
  have h : (result (swap textCodec newDir time (.calm ⟨before, false⟩))).isSome := by decide +kernel
  obtain ⟨aside, h⟩ := Option.isSome_iff_exists.mp h
  exact ⟨aside, _, eq_ok h, swap_installs ready plain_time (eq_ok h)⟩

end Demo

end Sesame.Ops

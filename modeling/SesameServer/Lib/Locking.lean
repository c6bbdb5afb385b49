import SesameServer.Lib.ReadCommitted

/- Pre- and postconditions for transactions at READ COMMITTED.

   A statement sees tables that may have moved by the time its transaction commits, except for
   what its transaction has locked. So a condition is one on the tables at the commit, and of
   what a statement saw only the locked part may be carried over to it.

   1. `Protection` — what a lock protects: `same k s t` says that `s` and `t` agree on it.
   2. `Triple P p Q` — a body that is started with the locks and tables of `P` and runs to its
      end reaches `Q`, and holds the lock of everything it touches. One rule for each way a
      body is made.
   3. `Run.upholds` — what every body keeps holds in every run, and what an active transaction
      has seen under a lock is still so; `Settled.post` — then a finished body is at its
      postcondition. -/
namespace ReadCommitted

variable {τ σ χ ρ ε α β : Type}

structure Protection (E : Engine τ σ χ ρ ε α) where
  same : ρ → σ → σ → Prop
  touches : χ → ρ → Prop
  refl : ∀ k s, same k s s
  trans : ∀ {k s t u}, same k s t → same k t u → same k s u
  congr : ∀ {k s t} c, (∀ l, touches c l → same l s t) → same k s t →
    same k (E.apply c s) (E.apply c t)
  frame : ∀ {k c} s, ¬touches c k → same k s (E.apply c s)
  exclusive : ∀ {k c}, touches c k → E.conflict k k = true

namespace Protection

variable {E : Engine τ σ χ ρ ε α} (G : Protection E)

theorem congr_all {locks : List ρ} {changes : List χ} {s t : σ}
    (covered : ∀ c ∈ changes, ∀ k, G.touches c k → k ∈ locks) (h : ∀ k ∈ locks, G.same k s t) :
    ∀ k ∈ locks, G.same k (applyAll E.apply changes s) (applyAll E.apply changes t) := by
  induction changes generalizing s t with
  | nil => exact h
  | cons c changes ih =>
    refine ih (fun c' hc' => covered c' (List.mem_cons_of_mem _ hc')) fun k hk => ?_
    exact G.congr c (fun l hl => h l (covered c List.mem_cons_self l hl)) (h k hk)

theorem frame_all {changes : List χ} {k : ρ} (s : σ) (h : ∀ c ∈ changes, ¬G.touches c k) :
    G.same k s (applyAll E.apply changes s) :=
  applyAll_keeps E.apply (P := G.same k s)
    (fun c hc t ht => G.trans ht (G.frame t (h c hc))) (G.refl k s)

/-- What a statement saw under a lock is still so in the tables `t`. -/
def Frozen (held : List ρ) (t : σ) (trace : List (Entry σ χ ρ)) : Prop :=
  ∀ front e back, trace = front ++ e :: back → ∀ k ∈ held ++ locksOf (front ++ [e]), G.same k e.seen t

theorem locksOf_append (s t : List (Entry σ χ ρ)) : locksOf (s ++ t) = locksOf s ++ locksOf t := by
  simp [locksOf]

variable {G} {held : List ρ} {t : σ}

theorem Frozen.left {first rest : List (Entry σ χ ρ)} (h : G.Frozen held t (first ++ rest)) :
    G.Frozen held t first := by
  rintro front e back rfl
  exact h front e (back ++ rest) (by simp)

theorem Frozen.right {first rest : List (Entry σ χ ρ)} (h : G.Frozen held t (first ++ rest)) :
    G.Frozen (held ++ locksOf first) t rest := by
  rintro front e back rfl k hk
  refine h (first ++ front) e back (by simp) k ?_
  rwa [List.append_assoc first, locksOf_append, ← List.append_assoc]

/-! Triples. -/

variable (G)

/-- The changes are to what these locks protect. -/
def Covered (held : List ρ) (changes : List χ) : Prop :=
  ∀ c ∈ changes, ∀ k, G.touches c k → k ∈ held

/-- `P` and `Q` are about the locks held and the tables, those at the commit with the changes so
    far on top. -/
def Triple (P : List ρ → σ → Prop) (p : Program σ χ ρ ε β) (Q : β → List ρ → σ → Prop) : Prop :=
  ∀ held t pending trace b, Reads E.apply p pending trace (.done b) → G.Frozen held t trace →
    G.Covered held pending → P held (applyAll E.apply pending t) →
    Q b (held ++ locksOf trace) (applyAll E.apply (pending ++ changesOf trace) t) ∧
    G.Covered (held ++ locksOf trace) (pending ++ changesOf trace)

variable {G} {γ : Type} {P P' : List ρ → σ → Prop} {Q Q' : β → List ρ → σ → Prop}
  {R : γ → List ρ → σ → Prop}

theorem Covered.append {first rest : List χ} {more : List ρ} (h : G.Covered held first)
    (h' : G.Covered (held ++ more) rest) : G.Covered (held ++ more) (first ++ rest) := by
  intro c hc k hk
  rcases List.mem_append.mp hc with hc | hc
  · exact List.mem_append_left _ (h c hc k hk)
  · exact h' c hc k hk

theorem triple_pure {b : β} (h : ∀ held t, P held t → Q b held t) : G.Triple P (pure b) Q := by
  intro held t pending trace b' reads _ covered hp
  obtain ⟨rfl, rfl⟩ := reads.done
  simpa [locksOf] using And.intro (h held _ hp) covered

theorem triple_fail (e : ε) : G.Triple P (.fail e : Program σ χ ρ ε β) Q := by
  intro held t pending trace b reads
  cases reads

variable {p : Program σ χ ρ ε β} {sys : System τ σ χ ρ ε α} {txn : Txn τ σ χ ρ ε α}

theorem triple_bind {f : β → Program σ χ ρ ε γ} (hp : G.Triple P p Q)
    (hf : ∀ b, G.Triple (Q b) (f b) R) : G.Triple P (p >>= f) R := by
  intro held t pending trace c reads frozen covered pre
  obtain ⟨b, first, rest, rfl, hfirst, hrest⟩ := reads.bind
  obtain ⟨mid, covered⟩ := hp held t pending first b hfirst frozen.left covered pre
  have post := hf b _ t _ rest c hrest frozen.right covered mid
  rwa [locksOf_append, changesOf_append, ← List.append_assoc, ← List.append_assoc]

/-- One statement. `view` is what it sees; of that, what is locked by then is so in the tables. -/
theorem triple_stmt {locks : σ → List ρ} {changes : σ → List χ} {reply : σ → Except ε β}
    (h : ∀ held view t b, (∀ k ∈ held ++ locks view, G.same k view t) → P held t →
      reply view = .ok b → Q b (held ++ locks view) (applyAll E.apply (changes view) t) ∧
      G.Covered (held ++ locks view) (changes view)) :
    G.Triple P (Program.stmt locks changes reply) Q := by
  intro held t pending trace b reads frozen covered pre
  obtain ⟨seen, view, rfl, rfl, hreply⟩ := reads.stmt
  -- the changes so far are to what is locked, so they lead from what was seen to what is
  have hsame := G.congr_all (fun c hc k hk => List.mem_append_left _ (covered c hc k hk))
    fun k hk => frozen [] _ [] rfl k (by simpa [locksOf] using hk)
  obtain ⟨post, covered'⟩ := h held _ _ b hsame pre hreply
  have covered := covered.append covered'
  simpa [locksOf, changesOf, applyAll_append] using And.intro post covered

theorem Triple.conseq (h : G.Triple P p Q) (pre : ∀ held t, P' held t → P held t)
    (post : ∀ b held t, Q b held t → Q' b held t) : G.Triple P' p Q' := by
  intro held t pending trace b reads frozen covered hp
  obtain ⟨hq, covered⟩ := h held t pending trace b reads frozen covered (pre _ _ hp)
  exact ⟨post _ _ _ hq, covered⟩

theorem Triple.keep (h : G.Triple P p Q) (k : ρ) :
    G.Triple (fun held t => k ∈ held ∧ P held t) p (fun b held t => k ∈ held ∧ Q b held t) := by
  intro held t pending trace b reads frozen covered hp
  obtain ⟨hq, covered⟩ := h held t pending trace b reads frozen covered hp.2
  exact ⟨⟨List.mem_append_left _ hp.1, hq⟩, covered⟩

theorem triple_returns {Q : List ρ → σ → Prop} {f : β → γ} (hp : G.Triple P p fun _ => Q) :
    G.Triple P (p >>= fun b => pure (f b)) fun _ => Q :=
  triple_bind hp fun _ => triple_pure fun _ _ h => h

theorem triple_forM {xs : List γ} {body : γ → Program σ χ ρ ε Unit}
    (h : ∀ x, G.Triple P (body x) fun _ => P) : G.Triple P (xs.forM body) fun _ => P := by
  induction xs with
  | nil => exact triple_pure fun _ _ hp => hp
  | cons x xs ih => exact triple_bind (h x) fun _ => ih

/-! Runs. -/

/-- Every active transaction has seen, under its locks, what is still so. -/
def Settled (G : Protection E) (sys : System τ σ χ ρ ε α) : Prop :=
  ∀ id txn, sys.active.lookup id = some txn → G.Frozen [] sys.tables txn.trace

theorem Settled.commit {id : Nat}
    (settled : G.Settled sys) (sound : E.Sound sys) (active : sys.active.lookup id = some txn)
    (covered : G.Covered (locksOf txn.trace) (changesOf txn.trace)) : G.Settled { sys with
      tables := applyAll E.apply (changesOf txn.trace) sys.tables
      active := sys.active.erase id } := by
  intro k other hother front e back htrace l hl
  obtain ⟨hne, hother⟩ := Table.lookup_erase_some.mp hother
  refine G.trans (settled k other hother front e back htrace l hl) (G.frame_all _ fun c hc htouch => ?_)
  -- the other transaction holds the lock, so this one cannot
  have hl : l ∈ locksOf other.trace := by
    rw [htrace, List.append_cons, locksOf_append]
    exact List.mem_append_left _ (by simpa using hl)
  have := sound.apart id txn k other active hother (Ne.symm hne) l (covered c hc l htouch) l hl
  rw [G.exclusive htouch] at this
  cases this

theorem Settled.run {id : Nat} {txn' : Txn τ σ χ ρ ε α} {e : Entry σ χ ρ} (settled : G.Settled sys)
    (active : sys.active.lookup id = some txn) (htrace : txn'.trace = txn.trace ++ [e])
    (seen : e.seen = sys.tables) : G.Settled { sys with active := sys.active.insert id txn' } := by
  intro k other hother front e' back hother' l hl
  rcases Table.lookup_insert_some.mp hother with ⟨rfl, rfl⟩ | ⟨-, hother⟩
  · rcases List.eq_nil_or_concat back with rfl | ⟨back', last, rfl⟩
    · rw [htrace] at hother'
      cases (List.append_inj' hother' rfl).2
      exact seen ▸ G.refl l _
    · rw [htrace, List.concat_eq_append, ← List.cons_append, ← List.append_assoc] at hother'
      exact settled _ txn active front e' back' (List.append_inj' hother' rfl).1 l hl
  · exact settled k other hother front e' back hother' l hl

/-- **A finished body is at its postcondition.** -/
theorem Settled.post {id : Nat} {reply : α}
    {Q : α → List ρ → σ → Prop} (settled : G.Settled sys) (sound : E.Sound sys)
    (active : sys.active.lookup id = some txn) (body : txn.program = .done reply)
    (triple : G.Triple P (E.program txn.task txn.start) Q) (pre : P [] sys.tables) :
    Q reply (locksOf txn.trace) (applyAll E.apply (changesOf txn.trace) sys.tables) ∧
    G.Covered (locksOf txn.trace) (changesOf txn.trace) := by
  have reads := sound.reads id txn active
  rw [body] at reads
  exact triple [] sys.tables [] txn.trace reply reads (settled id txn active)
    (fun _ h => by cases h) pre

variable {tables : σ} {clock : Int} {events : List (Event τ σ χ ρ ε α)} {sys : System τ σ χ ρ ε α}

/-- **What every body keeps holds in every run.** -/
theorem Run.upholds {Inv : σ → Prop} (run : E.Run tables clock events sys)
    (bodies : ∀ task start, G.Triple (fun _ => Inv) (E.program task start) fun _ _ => Inv)
    (first : Inv tables) : Inv sys.tables ∧ G.Settled sys := by
  refine (run.always (Q := fun _ s => E.Sound s ∧ Inv s.tables ∧ G.Settled s)
    ⟨Engine.Sound.start tables clock, first, fun _ _ h => by cases h⟩ ?_).2
  rintro _ s _ s' _ ⟨sound, inv, settled⟩ next -
  have hdoes := next.does
  refine ⟨sound.next hdoes, ?_⟩
  cases hdoes with
  | wait => exact ⟨inv, settled⟩
  | begin task =>
    refine ⟨inv, fun k other hother front e back htrace => ?_⟩
    rcases Table.lookup_insert_some.mp hother with ⟨-, rfl⟩ | ⟨-, hother⟩
    · simp at htrace
    · exact settled k other hother front e back htrace
  | drop id =>
    exact ⟨inv, fun k other hother => settled k other (Table.lookup_erase_some.mp hother).2⟩
  | run view active body sees free => exact ⟨inv, settled.run active rfl rfl⟩
  | @commit id txn reply active body =>
    obtain ⟨inv', covered⟩ := settled.post sound active body (bodies txn.task txn.start) inv
    exact ⟨inv', settled.commit sound active covered⟩

end Protection

end ReadCommitted

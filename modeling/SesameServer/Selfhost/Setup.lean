import SesameServer.Selfhost.Counters

/- Setup tokens. `CompleteSetup` finds its token and checks the code outside its transaction,
   and the transaction checks again only that the token's row is there, unused and in time,
   and that the owner has no password. That this is enough is because whatever voids a token
   deletes its row or writes the owner's, and no id is drawn twice.

   1. `TokenFrom` — where a token's row after a step comes from.
   2. `Tracked` — the invariant: an unused token was issued and nothing voided it since; its
      secret is the one that `SetupDetails` returned; what a pending `CompleteSetup` found is
      still so if the row is still there.
   3. `setup_completes_once` — what holds when a setup commits. -/
namespace Sesame.Selfhost
open Outcome History

/-- After the event no token for the purpose that is older than it may be used: another first
    setup was started, or the owner was reset, removed or has set a password. -/
def Event.Voids (purpose : Purpose) (e : Event) : Prop :=
  (purpose = .first ∧ ∃ token, e = .issued token .first) ∨
    ∃ owner, purpose.owner = some owner ∧ e.Replaces owner

def Event.IsSetup (e : Event) : Prop :=
  ∃ n token owner credential counter, e = .completed n token owner credential counter

/-! Tokens' rows. -/

/-- Where the row that the token `k` has after a step comes from; `drawn` are the ids that the
    step drew. -/
inductive TokenFrom (svc : Service) (drawn : List Bytes) (shown : List Event) (k : Bytes) :
    Option SetupToken → SetupToken → Prop
  | kept {t : SetupToken}
      (secret : ∀ x, .detailed k x ∈ shown → ∃ sealedSecret, t.totpSecret = some sealedSecret ∧
        svc.openSecret sealedSecret = some x)
      (clear : t.usedAt = none → ∀ e ∈ shown, e.Voids t.purpose → e.IsSetup)
      (undone : ∀ n owner credential counter, .completed n k owner credential counter ∉ shown) :
      TokenFrom svc drawn shown k (some t) t
  | detailed {t : SetupToken} {secret sealedSecret : Bytes} (eq : shown = [.detailed k secret])
      (unused : t.usedAt = none) (had : t.totpSecret = none)
      (opens : svc.openSecret sealedSecret = some secret) :
      TokenFrom svc drawn shown k (some t) { t with totpSecret := some sealedSecret }
  | used {t : SetupToken} {now : Int} (eq : ∃ n owner credential counter,
      shown = [.completed n k owner credential counter]) :
      TokenFrom svc drawn shown k (some t) { t with usedAt := some now }
  | issued {old : Option SetupToken} {t : SetupToken} (front : List Event)
      (eq : shown = front ++ [.issued k t.purpose]) (resets : ∀ e ∈ front, ∃ owner, e = .reset owner)
      (bare : t.totpSecret = none) (new : k ∈ drawn)
      (owner : ∀ owner, t.purpose.owner = some owner → owner ∈ drawn ∨ .reset owner ∈ front) :
      TokenFrom svc drawn shown k old t

variable {svc : Service} {env : Env} {db db' : Db} {es shown : List Event} {s s' : System}

theorem not_voids_issued {purpose purpose' : Purpose} {token : Bytes} (h : purpose' ≠ .first) :
    ¬(Event.issued token purpose').Voids purpose := by
  rintro (⟨-, token', he⟩ | ⟨owner, -, he | he | ⟨_, _, _, _, he⟩⟩)
  · cases he
    exact h rfl
  all_goals cases he

variable {drawn : List Bytes} {k id owner : Bytes} {t : SetupToken} {p : PreparedSetup} {n : Nat}

theorem tokenFrom_insert {before tokens : Table Bytes SetupToken} {k₀ : Bytes} {new : SetupToken}
    (h : (tokens.insert k₀ new).lookup k = some t)
    (put : TokenFrom svc drawn shown k₀ (before.lookup k₀) new)
    (rest : tokens.lookup k = some t → k ≠ k₀ → TokenFrom svc drawn shown k (before.lookup k) t) :
    TokenFrom svc drawn shown k (before.lookup k) t := by
  rcases Table.lookup_insert_some.mp h with ⟨rfl, rfl⟩ | ⟨hne, h⟩
  · exact put
  · exact rest h hne

theorem Effect.token (effect : Effect svc env db shown db') (h : db'.setupTokens.lookup k = some t) :
    TokenFrom svc [env.id 0, env.id 1] shown k (db.setupTokens.lookup k) t := by
  -- the rows that a step leaves alone, if it shows no details and no setup
  have still (hsame : db.setupTokens.lookup k = some t) (nothing : ∀ e ∈ shown,
      (∀ token secret, e ≠ .detailed token secret) ∧ ¬e.IsSetup)
      (clear : t.usedAt = none → ∀ e ∈ shown, ¬e.Voids t.purpose) :
      TokenFrom svc [env.id 0, env.id 1] shown k (db.setupTokens.lookup k) t := by
    rw [hsame]
    exact .kept (fun x hx => absurd rfl ((nothing _ hx).1 k x))
      (fun unused e he hvoids => absurd hvoids (clear unused e he))
      fun n owner credential counter hx => (nothing _ hx).2 ⟨n, k, owner, credential, counter, rfl⟩
  cases effect with
  | first =>
    refine tokenFrom_insert h (.issued [] rfl (by simp) rfl (by simp) (by simp [newToken, Purpose.owner]))
      fun h _ => ?_
    obtain ⟨h, hcond⟩ := Table.lookup_deleteWhere_some.mp h
    refine still h (by simp [Event.IsSetup]) fun unused e he => ?_
    rw [List.mem_singleton.mp he]
    rintro (⟨hfirst, -⟩ | ⟨owner, -, hreplaces⟩)
    · simp [hfirst, unused] at hcond
    · simp [Event.Replaces] at hreplaces
  | invited =>
    refine tokenFrom_insert h (.issued [] rfl (by simp) rfl (by simp) (by simp [newToken, Purpose.owner]))
      fun h _ => ?_
    refine still h (by simp [Event.IsSetup]) fun unused e he => ?_
    rw [List.mem_singleton.mp he]
    exact not_voids_issued (by simp)
  | @reset by_ id row log lookup standing =>
    refine tokenFrom_insert h (.issued [.reset id] rfl (by simp) rfl (by simp)
      (by simp [newToken, Purpose.owner])) fun h _ => ?_
    obtain ⟨h, hcond⟩ := Table.lookup_deleteWhere_some.mp h
    refine still h (by simp [Event.IsSetup]) fun unused e he => ?_
    rcases List.mem_cons.mp he with rfl | he
    · rintro (⟨-, token, he⟩ | ⟨owner, howner, hreplaces⟩)
      · cases he
      · cases hreplaces.owner
        simp [howner, unused] at hcond
    · rw [List.mem_singleton.mp he]
      exact not_voids_issued (by simp)
  | removed =>
    obtain ⟨h, hcond⟩ := Table.lookup_deleteWhere_some.mp h
    refine still h (by simp [Event.IsSetup]) fun unused e he => ?_
    rw [List.mem_singleton.mp he]
    rintro (⟨-, token, he⟩ | ⟨owner, howner, hreplaces⟩)
    · cases he
    · cases hreplaces.owner
      simp [howner, unused] at hcond
  | shown lookup unused had opens =>
    rw [h]
    refine .kept (fun x hx => ?_) (by simp [Event.Voids, Event.Replaces]) (by simp)
    cases List.mem_singleton.mp hx
    cases lookup.symm.trans h
    exact ⟨_, had, opens⟩
  | detailed lookup unused had =>
    obtain ⟨t₀, h₀, hif⟩ := Table.lookup_updateWhere_some.mp h
    split at hif
    · next hk =>
      obtain rfl := eq_of_beq hk
      cases lookup.symm.trans h₀
      rw [h₀, ← hif]
      exact .detailed rfl unused had (svc.open_seal _ _)
    · next hk =>
      rw [h₀, hif]
      refine .kept (fun x hx => ?_) (by simp [Event.Voids, Event.Replaces]) (by simp)
      cases List.mem_singleton.mp hx
      simp at hk
  | completed lookup unused installed =>
    refine tokenFrom_insert h ?_ fun h hne => ?_
    · rw [lookup]
      exact .used ⟨_, _, _, _, rfl⟩
    · rw [h]
      refine .kept (by simp) (fun _ e he _ => ?_) (by simp [hne])
      rw [List.mem_singleton.mp he]
      exact ⟨_, _, _, _, _, rfl⟩
  | maintained =>
    have h := (Table.lookup_deleteWhere_some.mp (Table.lookup_deleteWhere_some.mp h).1).1
    exact still h (by simp) (by simp)
  | accepted | quiet | memberAdded | memberRenamed | memberRemoved | paired | connected =>
    exact still h (by simp [Event.IsSetup]) (by simp [Event.Voids, Event.Replaces])

/-- An owner's row was there before, or its id is new. -/
theorem Effect.owner_known (effect : Effect svc env db shown db') {row : Owner}
    (h : db'.owners.lookup id = some row) :
    (∃ old, db.owners.lookup id = some old) ∨ id = env.id 0 := by
  have put {k : Bytes} {new : Owner} (h : (db.owners.insert k new).lookup id = some row) :
      id = k ∨ ∃ old, db.owners.lookup id = some old := by
    rcases Table.lookup_insert_some.mp h with ⟨rfl, -⟩ | ⟨-, h⟩
    · exact .inl rfl
    · exact .inr ⟨_, h⟩
  cases effect with
  | invited => exact (put h).symm
  | reset | removed =>
    obtain ⟨old, hold, -⟩ := Table.lookup_updateWhere_some.mp h
    exact .inl ⟨old, hold⟩
  | completed _ _ installed =>
    cases installed with
    | first _ _ _ _ eq =>
      rw [eq] at h
      exact (put h).symm
    | pending _ lookup _ _ eq =>
      rw [eq] at h
      rcases put h with rfl | hold
      · exact .inl ⟨_, lookup⟩
      · exact .inl hold
  | accepted lookup =>
    rcases put h with rfl | hold
    · exact .inl ⟨_, lookup⟩
    · exact .inl hold
  | maintained => exact .inl ⟨row, (Table.lookup_deleteWhere_some.mp h).1⟩
  | first | shown | detailed | quiet | memberAdded | memberRenamed | memberRemoved | paired | connected =>
    exact .inl ⟨row, h⟩

theorem Effect.reset_known (effect : Effect svc env db shown db') (h : .reset id ∈ shown) :
    ∃ row, db.owners.lookup id = some row := by
  cases effect with
  | reset lookup =>
    simp only [List.mem_cons, Event.reset.injEq, reduceCtorEq, List.not_mem_nil, or_false] at h
    exact ⟨_, h ▸ lookup⟩
  | _ => simp at h

/-- What a step does to owners and tokens, with the ids that it draws. -/
theorem Next.draws (next : Next svc s shown s') : ∃ drawn, s'.ids = s.ids ++ drawn ∧
    (∀ id ∈ drawn, id ∉ s.ids) ∧ (∀ id row, s'.db.owners.lookup id = some row →
      (∃ old, s.db.owners.lookup id = some old) ∨ id ∈ drawn) ∧
    (∀ id, .reset id ∈ shown → ∃ row, s.db.owners.lookup id = some row) ∧
    ∀ k t, s'.db.setupTokens.lookup k = some t →
      TokenFrom svc drawn shown k (s.db.setupTokens.lookup k) t := by
  rcases next.effect with ⟨hdb, hids, hbegan⟩ | ⟨env, draws, hids, effect⟩
  · refine ⟨[], by simp [hids], by simp, fun id row h => .inl ⟨row, hdb ▸ h⟩, fun id h => ?_,
      fun k t h => ?_⟩
    · obtain ⟨n, owner, he⟩ := hbegan _ h
      cases he
    · rw [hdb] at h
      rw [h]
      refine .kept (fun x hx => ?_) (fun _ e he hvoids => ?_) fun n owner credential counter hx => ?_
      · obtain ⟨_, _, he⟩ := hbegan _ hx
        cases he
      · obtain ⟨_, _, rfl⟩ := hbegan e he
        simp [Event.Voids, Event.Replaces] at hvoids
      · obtain ⟨_, _, he⟩ := hbegan _ hx
        cases he
  · refine ⟨[env.id 0, env.id 1], hids, by simp [draws.first, draws.second], fun id row h => ?_,
      fun id h => effect.reset_known h, fun k t h => effect.token h⟩
    rcases effect.owner_known h with h | rfl
    · exact .inl h
    · exact .inr (by simp)

/-! Pending setups. -/

/-- The token that a `CompleteSetup` has found. -/
def Pending.found : Pending → Option FoundToken
  | .token _ found => some found
  | .setup p => some p.found
  | _ => none

/-- A call that has found its token had done so before, or does it now. -/
theorem Next.found (next : Next svc s shown s') {call : Pending} {found : FoundToken}
    (h : s'.calls.lookup n = some call) (hfound : call.found = some found) :
    (∃ call', s.calls.lookup n = some call' ∧ call'.found = some found) ∨
      s'.db = s.db ∧ s'.ids = s.ids ∧ ∃ t, s.db.setupTokens.lookup found.id = some t ∧
        t.purpose = found.purpose ∧ t.totpSecret = found.secret := by
  cases next with
  | op => exact .inl ⟨call, h, hfound⟩
  | readToken valid run =>
    rcases Table.lookup_insert_some.mp h with ⟨-, rfl⟩ | ⟨-, h⟩
    · cases hfound
      obtain ⟨t, lookup, -, hpurpose, hsecret, -⟩ := findToken_ok run
      exact .inr ⟨rfl, rfl, t, lookup, hpurpose, hsecret⟩
    · exact .inl ⟨call, h, hfound⟩
  | prepareSetup before first run =>
    rcases Table.lookup_insert_some.mp h with ⟨rfl, rfl⟩ | ⟨-, h⟩
    · cases hfound
      exact .inl ⟨_, before, by rw [(prepareSetup_ok run).1]; rfl⟩
    · exact .inl ⟨call, h, hfound⟩
  | readLogin | readSession | readStepUp =>
    rcases Table.lookup_insert_some.mp h with ⟨-, rfl⟩ | ⟨-, h⟩
    · cases hfound
    · exact .inl ⟨call, h, hfound⟩
  | commitSetup | commitLogin | commitStepUp | giveUp =>
    exact .inl ⟨call, (Table.lookup_erase_some.mp h).2, hfound⟩

/-- A setup that commits was prepared, its token unused, and it installs the owner. -/
theorem Next.completed (next : Next svc s shown s') {token : Bytes} {credential : Credential}
    {counter : Int} (h : .completed n token owner credential counter ∈ shown) :
    shown = [.completed n token owner credential counter] ∧
    ∃ env p t, s.calls.lookup n = some (.setup p) ∧ p.found.id = token ∧ p.credential = credential ∧
      s.db.setupTokens.lookup token = some t ∧ t.usedAt = none ∧ env.id 0 ∉ s.ids ∧
      Installed env p s.db s'.db.owners owner := by
  cases next with
  | op draws run =>
    have := Op.run_accepts run _ h
    cases this
  | commitSetup call draws run =>
    cases List.mem_singleton.mp h
    obtain ⟨t, owners, session, choice, log, lookup, unused, installed, -, rfl⟩ := commitSetup_ok run
    exact ⟨rfl, _, _, t, call, rfl, rfl, lookup, unused, draws.first, installed⟩
  | readLogin | readStepUp | commitLogin | commitStepUp => cases List.mem_singleton.mp h
  | readToken | readSession | prepareSetup | giveUp => cases h

theorem Next.detailed (next : Next svc s shown s') {token secret : Bytes}
    (h : .detailed token secret ∈ shown) :
    ∃ t, s.db.setupTokens.lookup token = some t ∧ t.usedAt = none := by
  rcases next.effect with ⟨-, -, hbegan⟩ | ⟨env, -, -, effect⟩
  · obtain ⟨_, _, he⟩ := hbegan _ h
    cases he
  · generalize s'.db = db' at effect
    cases effect with
    | shown lookup unused | detailed lookup unused =>
      cases List.mem_singleton.mp h
      exact ⟨_, lookup, unused⟩
    | _ => simp at h

/-! The invariant. -/

structure Tracked (svc : Service) (es : List Event) (s : System) : Prop where
  blank : [] ∈ s.ids
  owners : ∀ id row, s.db.owners.lookup id = some row → id ∈ s.ids ∧ id ≠ []
  known : ∀ k t, s.db.setupTokens.lookup k = some t → k ∈ s.ids ∧
    ∀ owner, t.purpose.owner = some owner → owner ∈ s.ids
  named : ∀ k, ((∃ x, .detailed k x ∈ es) ∨
    ∃ n owner credential counter, .completed n k owner credential counter ∈ es) → k ∈ s.ids
  /-- An unused token was issued, and nothing has voided it since. -/
  clear : ∀ k t, s.db.setupTokens.lookup k = some t → t.usedAt = none →
    ClearSince (.issued k t.purpose) (fun e => ¬e.Voids t.purpose) es
  /-- No two unused tokens are for one owner. -/
  single : ∀ k k' t t' owner, s.db.setupTokens.lookup k = some t →
    s.db.setupTokens.lookup k' = some t' → t.usedAt = none → t'.usedAt = none →
    t.purpose.owner = some owner → t'.purpose.owner = some owner → k = k'
  /-- A token has a secret from the first `SetupDetails` on, and it is the one returned. -/
  made : ∀ k t sealedSecret, s.db.setupTokens.lookup k = some t → t.totpSecret = some sealedSecret →
    ∃ x, .detailed k x ∈ es ∧ svc.openSecret sealedSecret = some x
  told : ∀ k t x, s.db.setupTokens.lookup k = some t → .detailed k x ∈ es →
    ∃ sealedSecret, t.totpSecret = some sealedSecret ∧ svc.openSecret sealedSecret = some x
  done : ∀ k t n owner credential counter, s.db.setupTokens.lookup k = some t →
    .completed n k owner credential counter ∈ es → t.usedAt ≠ none
  /-- What a setup has found is still so, if the row is there. -/
  found : ∀ n call found, s.calls.lookup n = some call → call.found = some found →
    found.id ∈ s.ids ∧ ∀ t, s.db.setupTokens.lookup found.id = some t → t.purpose = found.purpose ∧
      ∀ sealedSecret, found.secret = some sealedSecret → t.totpSecret = some sealedSecret
  secret : ∀ n p, s.calls.lookup n = some (.setup p) → p.found.secret = some p.secret

theorem Tracked.init : Tracked svc [] .init where
  blank := by simp [System.init]
  owners _ _ h := by cases h
  known _ _ h := by cases h
  named _ h := by simp at h
  clear _ _ h := by cases h
  single _ _ _ _ _ h := by cases h
  made _ _ _ h := by cases h
  told _ _ _ h := by cases h
  done _ _ _ _ _ _ h := by cases h
  found _ _ _ h := by cases h
  secret _ _ h := by cases h

/-- A setup voids no token that stays unused: the owner's only one is its own. -/
theorem Tracked.not_voided (tracked : Tracked svc es s) (next : Next svc s shown s')
    (hk : s.db.setupTokens.lookup k = some t) (unused : t.usedAt = none)
    (undone : ∀ n owner credential counter, .completed n k owner credential counter ∉ shown)
    {e : Event} (he : e ∈ shown) (hsetup : e.IsSetup) : ¬e.Voids t.purpose := by
  obtain ⟨n, token, owner, credential, counter, rfl⟩ := hsetup
  rintro (⟨-, _, heq⟩ | ⟨owner', howner, hreplaces⟩)
  · cases heq
  · cases hreplaces.owner
    obtain ⟨-, env, p, t₀, hcall, rfl, -, hlookup, hunused, hfresh, hinstalled⟩ := next.completed he
    cases hinstalled with
    | first => exact hfresh ((tracked.known k t hk).2 _ howner)
    | pending hpurpose =>
      have hsame := ((tracked.found n _ p.found hcall rfl).2 t₀ hlookup).1
      rw [tracked.single k _ t t₀ _ hk hlookup unused hunused howner (hsame ▸ hpurpose)] at undone
      exact undone _ _ _ _ he

section Next

variable {drawn : List Bytes} (tracked : Tracked svc es s)
include tracked

theorem Tracked.fresh_token (fresh : ∀ id ∈ drawn, id ∉ s.ids) (hk : k ∈ drawn) :
    (∀ x, .detailed k x ∉ es) ∧
      ∀ n owner credential counter, .completed n k owner credential counter ∉ es :=
  ⟨fun x hx => fresh k hk (tracked.named k (.inl ⟨x, hx⟩)), fun n owner credential counter hx =>
    fresh k hk (tracked.named k (.inr ⟨n, owner, credential, counter, hx⟩))⟩

theorem Tracked.next_named (next : Next svc s shown s') (hids : s'.ids = s.ids ++ drawn)
    (h : (∃ x, .detailed k x ∈ es ++ shown) ∨
      ∃ n owner credential counter, .completed n k owner credential counter ∈ es ++ shown) :
    k ∈ s'.ids := by
  rw [hids]
  refine List.mem_append_left _ ?_
  rcases h with ⟨x, hx⟩ | ⟨n, owner, credential, counter, hx⟩
  · rcases List.mem_append.mp hx with hx | hx
    · exact tracked.named k (.inl ⟨x, hx⟩)
    · obtain ⟨t, ht, -⟩ := next.detailed hx
      exact (tracked.known k t ht).1
  · rcases List.mem_append.mp hx with hx | hx
    · exact tracked.named k (.inr ⟨n, owner, credential, counter, hx⟩)
    · obtain ⟨-, env, p, t, -, -, -, ht, -⟩ := next.completed hx
      exact (tracked.known k t ht).1

variable {k : Bytes} {t : SetupToken} {old : Option SetupToken}
  (source : TokenFrom svc drawn shown k old t) (hold : s.db.setupTokens.lookup k = old)
include source hold

theorem Tracked.next_clear (next : Next svc s shown s') (unused : t.usedAt = none) :
    ClearSince (.issued k t.purpose) (fun e => ¬e.Voids t.purpose) (es ++ shown) := by
  cases source with
  | kept secret clear undone =>
    refine (tracked.clear k t hold unused).later fun e he hvoids => ?_
    exact tracked.not_voided next hold unused undone he (clear unused e he hvoids) hvoids
  | detailed eq =>
    refine (tracked.clear k _ hold unused).later ?_
    simp [eq, Event.Voids, Event.Replaces]
  | used => cases unused
  | issued front eq =>
    rw [eq]
    exact .now front

theorem Tracked.next_made {sealedSecret : Bytes} (h : t.totpSecret = some sealedSecret) :
    ∃ x, .detailed k x ∈ es ++ shown ∧ svc.openSecret sealedSecret = some x := by
  have before {t₀ : SetupToken} (hold : s.db.setupTokens.lookup k = some t₀)
      (h : t₀.totpSecret = some sealedSecret) :
      ∃ x, .detailed k x ∈ es ++ shown ∧ svc.openSecret sealedSecret = some x := by
    obtain ⟨x, hx, hopen⟩ := tracked.made k t₀ _ hold h
    exact ⟨x, List.mem_append_left _ hx, hopen⟩
  cases source with
  | kept => exact before hold h
  | detailed eq unused had opens =>
    cases h
    exact ⟨_, by simp [eq], opens⟩
  | used => exact before hold h
  | issued front eq resets bare =>
    rw [bare] at h
    cases h

theorem Tracked.next_known (hids : s'.ids = s.ids ++ drawn)
    (hresets : ∀ id, .reset id ∈ shown → ∃ row, s.db.owners.lookup id = some row) :
    k ∈ s'.ids ∧ ∀ owner, t.purpose.owner = some owner → owner ∈ s'.ids := by
  have before {t₀ : SetupToken} (hold : s.db.setupTokens.lookup k = some t₀)
      (h : t.purpose = t₀.purpose) :
      k ∈ s'.ids ∧ ∀ owner, t.purpose.owner = some owner → owner ∈ s'.ids := by
    obtain ⟨hk, howner⟩ := tracked.known k t₀ hold
    rw [hids, h]
    exact ⟨List.mem_append_left _ hk, fun owner ho => List.mem_append_left _ (howner owner ho)⟩
  cases source with
  | kept | detailed | used => exact before hold rfl
  | issued front eq resets bare new howner =>
    rw [hids]
    refine ⟨List.mem_append_right _ new, fun owner ho => ?_⟩
    rcases howner owner ho with h | h
    · exact List.mem_append_right _ h
    · obtain ⟨row, hrow⟩ := hresets owner (by simp [eq, h])
      exact List.mem_append_left _ (tracked.owners owner row hrow).1

variable (fresh : ∀ id ∈ drawn, id ∉ s.ids)
include fresh

theorem Tracked.next_told {x : Bytes} (h : .detailed k x ∈ es ++ shown) :
    ∃ sealedSecret, t.totpSecret = some sealedSecret ∧ svc.openSecret sealedSecret = some x := by
  rcases List.mem_append.mp h with h | h
  · cases source with
    | kept => exact tracked.told k t x hold h
    | detailed eq unused had =>
      obtain ⟨sealedSecret, hhas, -⟩ := tracked.told k _ x hold h
      rw [had] at hhas
      cases hhas
    | @used t₀ => exact tracked.told k t₀ x hold h
    | issued front eq resets bare new => exact absurd h ((tracked.fresh_token fresh new).1 x)
  · cases source with
    | kept secret => exact secret x h
    | detailed eq unused had opens =>
      rw [eq] at h
      cases List.mem_singleton.mp h
      exact ⟨_, rfl, opens⟩
    | used eq =>
      obtain ⟨n, owner, credential, counter, rfl⟩ := eq
      cases List.mem_singleton.mp h
    | issued front eq resets =>
      rw [eq] at h
      rcases List.mem_append.mp h with h | h
      · obtain ⟨owner, he⟩ := resets _ h
        cases he
      · cases List.mem_singleton.mp h

theorem Tracked.next_done {credential : Credential} {counter : Int}
    (h : .completed n k owner credential counter ∈ es ++ shown) : t.usedAt ≠ none := by
  rcases List.mem_append.mp h with h | h
  · cases source with
    | kept => exact tracked.done k t n owner credential counter hold h
    | @detailed t₀ => exact tracked.done k t₀ n owner credential counter hold h
    | used => simp
    | issued front eq resets bare new =>
      exact absurd h ((tracked.fresh_token fresh new).2 n owner credential counter)
  · cases source with
    | kept secret clear undone => exact absurd h (undone n owner credential counter)
    | detailed eq =>
      rw [eq] at h
      cases List.mem_singleton.mp h
    | used => simp
    | issued front eq resets =>
      rw [eq] at h
      rcases List.mem_append.mp h with h | h
      · obtain ⟨owner, he⟩ := resets _ h
        cases he
      · cases List.mem_singleton.mp h

end Next

theorem TokenFrom.still_found {found : FoundToken} {old : Option SetupToken}
    (source : TokenFrom svc drawn shown found.id old t) (fresh : found.id ∉ drawn)
    (hfound : ∀ t, old = some t → t.purpose = found.purpose ∧
      ∀ sealedSecret, found.secret = some sealedSecret → t.totpSecret = some sealedSecret) :
    t.purpose = found.purpose ∧
      ∀ sealedSecret, found.secret = some sealedSecret → t.totpSecret = some sealedSecret := by
  cases source with
  | kept => exact hfound t rfl
  | detailed eq unused had =>
    obtain ⟨hpurpose, hsecret⟩ := hfound _ rfl
    refine ⟨hpurpose, fun sealedSecret h => ?_⟩
    have := hsecret _ h
    rw [had] at this
    cases this
  | @used t₀ => exact hfound t₀ rfl
  | issued front eq resets bare new => exact absurd new fresh

/-- An unused row was there and unused before, for the same purpose, or it is issued now. -/
theorem TokenFrom.unused {old : Option SetupToken} (source : TokenFrom svc drawn shown k old t)
    (unused : t.usedAt = none) : (∃ t₀, old = some t₀ ∧ t₀.usedAt = none ∧ t₀.purpose = t.purpose ∧
        ∀ e ∈ shown, e.Voids t.purpose → e.IsSetup) ∨
      ∃ front, shown = front ++ [.issued k t.purpose] ∧
        ∀ owner, t.purpose.owner = some owner → owner ∈ drawn ∨ .reset owner ∈ front := by
  cases source with
  | kept secret clear => exact .inl ⟨t, rfl, unused, rfl, clear unused⟩
  | detailed eq => exact .inl ⟨_, rfl, unused, rfl, by simp [eq, Event.Voids, Event.Replaces]⟩
  | used => cases unused
  | issued front eq resets bare new owner => exact .inr ⟨front, eq, owner⟩

/-- A token that is issued for an owner is the only unused one. -/
theorem Tracked.issued_alone (tracked : Tracked svc es s) (fresh : ∀ id ∈ drawn, id ∉ s.ids)
    (hk : s.db.setupTokens.lookup k = some t) (howner : t.purpose.owner = some owner)
    (clear : ∀ e ∈ shown, e.Voids t.purpose → e.IsSetup) (h : owner ∈ drawn ∨ .reset owner ∈ shown) :
    False := by
  rcases h with h | h
  · exact fresh owner h ((tracked.known k t hk).2 owner howner)
  · obtain ⟨_, _, _, _, _, he⟩ := clear _ h (.inr ⟨owner, howner, .inl rfl⟩)
    cases he

theorem Tracked.next_single (tracked : Tracked svc es s) (fresh : ∀ id ∈ drawn, id ∉ s.ids)
    {k' : Bytes} {t' : SetupToken}
    (source : TokenFrom svc drawn shown k (s.db.setupTokens.lookup k) t)
    (source' : TokenFrom svc drawn shown k' (s.db.setupTokens.lookup k') t')
    (unused : t.usedAt = none) (unused' : t'.usedAt = none) (howner : t.purpose.owner = some owner)
    (howner' : t'.purpose.owner = some owner) : k = k' := by
  rcases source.unused unused with ⟨t₀, hk, hu, hp, clear⟩ | ⟨front, eq, hnew⟩
  · rcases source'.unused unused' with ⟨t₀', hk', hu', hp', -⟩ | ⟨front, eq, hnew⟩
    · exact tracked.single k k' t₀ t₀' owner hk hk' hu hu' (hp ▸ howner) (hp' ▸ howner')
    · refine (tracked.issued_alone fresh hk (hp ▸ howner) (hp ▸ clear) ?_).elim
      exact (hnew owner howner').imp_right fun h => by simp [eq, h]
  · rcases source'.unused unused' with ⟨t₀', hk', hu', hp', clear⟩ | ⟨front', eq', -⟩
    · refine (tracked.issued_alone fresh hk' (hp' ▸ howner') (hp' ▸ clear) ?_).elim
      exact (hnew owner howner).imp_right fun h => by simp [eq, h]
    · have hlast := congrArg List.getLast? (eq.symm.trans eq')
      simp only [List.getLast?_append, List.getLast?_singleton, Option.some_or, Option.some.injEq,
        Event.issued.injEq] at hlast
      exact hlast.1

theorem Tracked.next (tracked : Tracked svc es s) (next : Next svc s shown s') :
    Tracked svc (es ++ shown) s' := by
  obtain ⟨drawn, hids, fresh, howners, hresets, htokens⟩ := next.draws
  refine ⟨?_, fun id row h => ?_, fun k t h => ?_, fun k h => tracked.next_named next hids h,
    fun k t h unused => tracked.next_clear (htokens k t h) rfl next unused,
    fun k k' t t' owner h h' => tracked.next_single fresh (htokens k t h) (htokens k' t' h'),
    fun k t _ h => tracked.next_made (htokens k t h) rfl,
    fun k t _ h => tracked.next_told (htokens k t h) rfl fresh,
    fun k t _ _ _ _ h => tracked.next_done (htokens k t h) rfl fresh,
    fun n call found h hfound => ?_, fun n p h => ?_⟩
  · rw [hids]
    exact List.mem_append_left _ tracked.blank
  · rw [hids]
    rcases howners id row h with ⟨old, hold⟩ | hdrawn
    · exact (tracked.owners id old hold).imp_left (List.mem_append_left _)
    · refine ⟨List.mem_append_right _ hdrawn, ?_⟩
      rintro rfl
      exact fresh [] hdrawn tracked.blank
  · exact tracked.next_known (htokens k t h) rfl hids hresets
  · rcases next.found h hfound with ⟨call', h, hfound⟩ | ⟨hdb, hsame, t, ht, hpurpose, hsecret⟩
    · obtain ⟨hknown, hrow⟩ := tracked.found n call' found h hfound
      refine ⟨hids ▸ List.mem_append_left _ hknown, fun t ht => ?_⟩
      exact (htokens _ t ht).still_found (fun hdrawn => fresh _ hdrawn hknown) hrow
    · refine ⟨hsame ▸ (tracked.known _ t ht).1, fun t' ht' => ?_⟩
      rw [hdb, ht] at ht'
      cases ht'
      exact ⟨hpurpose, fun sealedSecret h => hsecret.trans h⟩
  · rcases next.setup h with h | ⟨-, h, -⟩
    · exact tracked.secret n p h
    · exact h

theorem Run.tracked (run : Run svc es s) : Tracked svc es s :=
  run.always .init fun _ _ _ _ _ tracked next _ => tracked.next next

theorem no_active_of_count (tracked : Tracked svc es s) (h : countActiveOwners s.db [] = 0)
    {row : Owner} (hrow : s.db.owners.lookup id = some row) : row.active = false := by
  have hnot := Table.count_eq_zero.mp h id row hrow
  have hne : (id != []) = true := bne_iff_ne.mpr (tracked.owners id row hrow).2
  simpa [hne] using hnot

theorem Installed.credential {owners : Table Bytes Owner} (h : Installed env p db owners owner) :
    ∃ row, owners.lookup owner = some row ∧ row.credential = some p.credential := by
  cases h with
  | first _ _ _ _ eq | pending _ _ _ _ eq => exact ⟨_, eq ▸ AList.lookup_insert _, rfl⟩

/-- **A setup commits once, only by right, and with the secret that was shown.** When in some
    run a setup commits, its token has not completed before; it was issued, and since then
    no other first setup was started if it is for a first owner, nor was its owner reset,
    removed or given a password; at that moment no owner is active if it is for a first
    owner, and else the owner is not removed and has no password; the secret it stores is
    the one that every `SetupDetails` of the token returned, and there was one. None comes
    after it. -/
theorem setup_completes_once (run : Run svc es s) (next : Next svc s shown s') :
    (∀ n token owner credential counter, .completed n token owner credential counter ∈ shown →
      (∀ n' owner' credential' counter',
        .completed n' token owner' credential' counter' ∉ es) ∧
      (∃ purpose, ClearSince (.issued token purpose) (fun e => ¬e.Voids purpose) es ∧
        (purpose = .first → ∀ id row, s.db.owners.lookup id = some row → row.active = false) ∧
        (purpose ≠ .first → purpose.owner = some owner ∧ ∃ row,
          s.db.owners.lookup owner = some row ∧ row.removedAt = none ∧ row.credential = none)) ∧
      (∃ row, s'.db.owners.lookup owner = some row ∧ row.credential = some credential) ∧
      ∃ secret, svc.openSecret credential.totpSecret = some secret ∧
        .detailed token secret ∈ es ∧ ∀ x, .detailed token x ∈ es → x = secret) ∧
    ∀ token secret, .detailed token secret ∈ shown →
      ∀ n owner credential counter, .completed n token owner credential counter ∉ es := by
  have tracked := run.tracked
  constructor
  · intro n token owner credential counter h
    obtain ⟨-, env, p, t, hcall, rfl, rfl, hlookup, hunused, -, hinstalled⟩ := next.completed h
    obtain ⟨-, hsame⟩ := tracked.found n _ p.found hcall rfl
    obtain ⟨hpurpose, hsecret⟩ := hsame t hlookup
    have hsealed := hsecret _ (tracked.secret n p hcall)
    refine ⟨fun n' owner' credential' counter' hx => ?_, ?_, hinstalled.credential, ?_⟩
    · exact tracked.done _ t n' owner' credential' counter' hlookup hx hunused
    · refine ⟨t.purpose, tracked.clear _ t hlookup hunused, fun hfirst id row hrow => ?_,
        fun hother => ?_⟩
      · cases hinstalled with
        | first _ alone => exact no_active_of_count tracked alone hrow
        | pending howner =>
          rw [← hpurpose, hfirst] at howner
          cases howner
      · cases hinstalled with
        | first howner =>
          rw [← hpurpose] at howner
          cases hp : t.purpose with
          | first => exact absurd hp hother
          | invite o | reset o =>
            rw [hp] at howner
            cases howner
        | pending howner hrow hstanding hbare =>
          exact ⟨hpurpose ▸ howner, _, hrow, hstanding, hbare⟩
    · obtain ⟨secret, htold, hopens⟩ := tracked.made _ t _ hlookup hsealed
      refine ⟨secret, hopens, htold, fun x hx => ?_⟩
      obtain ⟨sealedSecret, hhas, hopens'⟩ := tracked.told _ t x hlookup hx
      cases hsealed.symm.trans hhas
      exact Option.some.inj (hopens'.symm.trans hopens)
  · intro token secret h n owner credential counter hx
    obtain ⟨t, hlookup, hunused⟩ := next.detailed h
    exact tracked.done token t n owner credential counter hlookup hx hunused

namespace Demo

/-- A first setup has found its token and checked its code; then another is started. -/
def lateSetup : List Event × System :=
  playAll server ((opening.take 4) ++ [.op (moment 5) .startFirstSetup]) ([], .init)

def timelySetup : List Event × System := playAll server (opening.take 4) ([], .init)

/-- The setup that was overtaken is refused; the other commits, with the secret that was
    shown. -/
theorem overtaken_setup_refused :
    ((Turn.commitSetup (moment 6) 0).play server lateSetup.2).isNone = true ∧
    ∃ shown s', (Turn.commitSetup (moment 6) 0).play server timelySetup.2 = some (shown, s') ∧
      .completed 0 [1, 0] [6, 0] ⟨3 :: password, [2]⟩ 100003 ∈ shown ∧
      .detailed [1, 0] [2] ∈ timelySetup.1 ∧
      ∃ secret, server.openSecret [2] = some secret ∧ .detailed [1, 0] secret ∈ timelySetup.1 := by
  refine ⟨by decide +kernel, ?_⟩
  cases h : (Turn.commitSetup (moment 6) 0).play server timelySetup.2 with
  | none =>
    have some : ((Turn.commitSetup (moment 6) 0).play server timelySetup.2).isSome = true := by
      decide +kernel
    rw [h] at some
    cases some
  | some next =>
    have hshown : ((Turn.commitSetup (moment 6) 0).play server timelySetup.2).map Prod.fst =
        some [.completed 0 [1, 0] [6, 0] ⟨3 :: password, [2]⟩ 100003] := by decide +kernel
    rw [h] at hshown
    have hmem : .completed 0 [1, 0] [6, 0] ⟨3 :: password, [2]⟩ 100003 ∈ next.1 := by
      rw [Option.some.inj hshown]
      exact List.mem_singleton_self _
    refine ⟨next.1, next.2, rfl, hmem, by decide +kernel, ?_⟩
    obtain ⟨secret, hopens, htold, -⟩ := ((setup_completes_once (playAll_init (opening.take 4))
      (Turn.play_next h)).1 _ _ _ _ _ hmem).2.2.2
    exact ⟨secret, hopens, htold⟩

end Demo

end Sesame.Selfhost

import SesameServer.Lib.Text
import SesameServer.Lib.Utf8

/- The address of a client behind reverse proxies, in the hosted server
   (`internal/httpapi/request_security.go`) and in the self-hosted one
   (`internal/selfhost/server/guard.go`).

   1. `Net` — what `net` and `net/netip` do with a text; of their laws only one is used.
   2. `walk` — the loop over the hops of `X-Forwarded-For`, which both servers have.
      `Header.Get` sees the first line only.
   3. `scan_append` — hops that are trusted are passed over, the first other one from the right
      decides.
   4. `clientIP_rightmost` for one line, `clientIP_joined_iff` for any number of them. -/
namespace Sesame.Proxies

/-- Addresses and prefixes as the library has them. -/
structure Net (Addr Range : Type) where
  /-- The host of `net.SplitHostPort`. -/
  splitHostPort : Bytes → Option Bytes
  parseAddr : Bytes → Option Addr
  unmap : Addr → Addr
  string : Addr → Bytes
  contains : Range → Addr → Bool
  is6 : Addr → Bool
  /-- `Addr.Prefix(64)`, printed. -/
  prefix64 : Addr → Option Bytes
  /-- Loopback, private or link-local. -/
  near : Addr → Bool
  parse_nil : parseAddr [] = none

/-- What the servers read of a request: where it comes from, and the lines of
    `X-Forwarded-For`. -/
structure Request where
  remoteAddr : Bytes
  forwardedFor : List Bytes
  deriving DecidableEq

/-- `Header.Get`. -/
def Request.forwarded (r : Request) : Bytes := r.forwardedFor.headD []

section
variable {Addr Range : Type} (net : Net Addr Range) (trusted : List Range)

/-- `requestIP`, `peerIP`. -/
def peerIP (r : Request) : Bytes := (net.splitHostPort r.remoteAddr).getD r.remoteAddr

/-- `isTrustedProxy`, `trustedProxy`. -/
def isTrustedProxy (value : Bytes) : Bool :=
  match net.parseAddr value with
  | none => false
  | some ip => trusted.any fun range => net.contains range (net.unmap ip)

/-- The loop over the hops, last one first. -/
def walk (peer : Bytes) : List Bytes → Bytes
  | [] => peer
  | hop :: rest =>
    match net.parseAddr (Utf8.trimSpace hop) with
    | none => peer
    | some ip =>
      let ip := net.unmap ip
      if isTrustedProxy net trusted (net.string ip) then walk peer rest else net.string ip

/-- `clientLimitKey`, from the address of the client. -/
def limitKey (client : Bytes) : Bytes :=
  match net.parseAddr client with
  | none => client
  | some address =>
    let address := net.unmap address
    if !net.is6 address then net.string address else (net.prefix64 address).getD client

namespace Hosted

def clientIP (r : Request) : Bytes :=
  let peer := peerIP net r
  if !isTrustedProxy net trusted peer then peer
  else if r.forwarded = [] then peer
  else walk net trusted peer (r.forwarded.splitOn 44).reverse

def clientLimitKey (r : Request) : Bytes := limitKey net (clientIP net trusted r)

end Hosted

namespace SelfHost

def privatePeer (value : Bytes) : Bool := (net.parseAddr value).any fun ip => net.near (net.unmap ip)

/-- Also whether a private peer that is no trusted proxy has sent the header, which is logged
    once. -/
def clientIP (seen : Bool) (r : Request) : Bytes × Bool :=
  let peer := peerIP net r
  if !isTrustedProxy net trusted peer then
    (peer, seen || (r.forwarded ≠ [] && privatePeer net peer))
  else if r.forwarded = [] then (peer, seen)
  else (walk net trusted peer (r.forwarded.splitOn 44).reverse, seen)

def clientLimitKey (seen : Bool) (r : Request) : Bytes := limitKey net (clientIP net trusted seen r).1

end SelfHost

/-! Hops. -/

/-- The hop is an address of a trusted proxy. -/
def Passed (hop : Bytes) : Prop :=
  ∃ ip, net.parseAddr (Utf8.trimSpace hop) = some ip ∧
    isTrustedProxy net trusted (net.string (net.unmap ip)) = true

def AllPassed (text : Bytes) : Prop := ∀ hop ∈ text.splitOn 44, Passed net trusted hop

/-- The hop is the last one of the text that is not. -/
def LastUnpassed (text hop : Bytes) : Prop :=
  ∃ left right, text.splitOn 44 = left ++ hop :: right ∧ ¬Passed net trusted hop ∧
    ∀ other ∈ right, Passed net trusted other

def named (hop : Bytes) : Option Bytes :=
  (net.parseAddr (Utf8.trimSpace hop)).map fun ip => net.string (net.unmap ip)

/-- What the hops of a text say, from the right. -/
def scan (peer text : Bytes) : Bytes := walk net trusted peer (text.splitOn 44).reverse

end

variable {Addr Range : Type} {net : Net Addr Range} {trusted : List Range} {peer : Bytes}

variable {hop : Bytes} {hops : List Bytes}

theorem walk_passed (h : Passed net trusted hop) (rest : List Bytes) :
    walk net trusted peer (hop :: rest) = walk net trusted peer rest := by
  obtain ⟨ip, hparse, htrusted⟩ := h
  rw [walk, hparse]
  exact if_pos htrusted

theorem walk_stops (h : ¬Passed net trusted hop) (rest rest' : List Bytes) :
    walk net trusted peer (hop :: rest) = walk net trusted peer (hop :: rest') := by
  rw [walk, walk]
  split
  · rfl
  · next ip hparse =>
    have hnot : ¬isTrustedProxy net trusted (net.string (net.unmap ip)) = true := fun htrusted =>
      h ⟨ip, hparse, htrusted⟩
    rw [if_neg hnot, if_neg hnot]

theorem walk_append_passed (h : ∀ hop ∈ hops, Passed net trusted hop) (rest : List Bytes) :
    walk net trusted peer (hops ++ rest) = walk net trusted peer rest := by
  induction hops with
  | nil => rfl
  | cons hop hops ih =>
    rw [List.cons_append, walk_passed (h hop List.mem_cons_self)]
    exact ih fun other hother => h other (List.mem_cons_of_mem _ hother)

theorem walk_append_stops (h : ¬∀ hop ∈ hops, Passed net trusted hop) (rest : List Bytes) :
    walk net trusted peer (hops ++ rest) = walk net trusted peer hops := by
  induction hops with
  | nil => exact absurd (fun hop hhop => by cases hhop) h
  | cons hop hops ih =>
    by_cases hpassed : Passed net trusted hop
    · rw [List.cons_append, walk_passed hpassed, walk_passed hpassed]
      exact ih fun hall => h (List.forall_mem_cons.mpr ⟨hpassed, hall⟩)
    · exact walk_stops hpassed _ _

/-- What stands to the left counts only if every hop to the right is passed over. -/
theorem scan_append (left right : Bytes) :
    (AllPassed net trusted right → scan net trusted peer (left ++ 44 :: right) = scan net trusted peer left) ∧
    (¬AllPassed net trusted right →
      scan net trusted peer (left ++ 44 :: right) = scan net trusted peer right) := by
  have hsplit : (left ++ 44 :: right).splitOn 44 = left.splitOn 44 ++ right.splitOn 44 :=
    List.splitOnP_append_cons _ _ (by decide)
  unfold scan
  rw [hsplit, List.reverse_append]
  constructor
  · intro h
    exact walk_append_passed (fun hop hhop => h hop (List.mem_reverse.mp hhop)) _
  · intro h
    exact walk_append_stops (fun hall => h fun hop hhop => hall hop (List.mem_reverse.mpr hhop)) _

theorem scan_nil : scan net trusted peer [] = peer := by
  have htrim : Utf8.trimSpace [] = [] := by decide
  show walk net trusted peer [[]] = peer
  rw [walk, htrim, net.parse_nil]

theorem scan_passed {text : Bytes} (h : AllPassed net trusted text) :
    scan net trusted peer text = peer := by
  rw [scan, ← List.append_nil (text.splitOn 44).reverse,
    walk_append_passed fun hop hhop => h hop (List.mem_reverse.mp hhop), walk]

theorem scan_last {text : Bytes} (h : LastUnpassed net trusted text hop) :
    scan net trusted peer text = (named net hop).getD peer := by
  obtain ⟨left, right, hsplit, hnot, hright⟩ := h
  rw [scan, hsplit, List.reverse_append, List.reverse_cons, List.append_assoc,
    walk_append_passed fun other hother => hright other (List.mem_reverse.mp hother),
    List.singleton_append, walk, named]
  cases hparse : net.parseAddr (Utf8.trimSpace hop) with
  | none => rfl
  | some ip => exact if_neg fun htrusted => hnot ⟨ip, hparse, htrusted⟩

theorem passed_or_last (text : Bytes) :
    AllPassed net trusted text ∨ ∃ hop, LastUnpassed net trusted text hop := by
  unfold AllPassed LastUnpassed
  generalize text.splitOn 44 = hops
  induction hops with
  | nil => exact .inl fun hop hhop => by cases hhop
  | cons hop hops ih =>
    rcases ih with hall | ⟨last, left, right, rfl, hnot, hright⟩
    · by_cases hhop : Passed net trusted hop
      · exact .inl (List.forall_mem_cons.mpr ⟨hhop, hall⟩)
      · exact .inr ⟨hop, [], hops, rfl, hhop, hall⟩
    · exact .inr ⟨last, hop :: left, right, rfl, hnot, hright⟩

theorem named_untrusted {address : Bytes} (h : ¬Passed net trusted hop)
    (hnamed : named net hop = some address) : ¬isTrustedProxy net trusted address = true := by
  obtain ⟨ip, hparse, rfl⟩ := Option.map_eq_some_iff.mp hnamed
  exact fun htrusted => h ⟨ip, hparse, htrusted⟩

/-- The last hops that count name one address, or neither names any. -/
def SameLast (net : Net Addr Range) (trusted : List Range) (first rest : Bytes) : Prop :=
  ∃ hop, LastUnpassed net trusted rest hop ∧
    ((∃ other, LastUnpassed net trusted first other ∧ named net other = named net hop) ∨
      (named net hop = none ∧ AllPassed net trusted first))

/-- Two texts say the same of a trusted peer exactly when their last hops do. -/
theorem scan_eq_iff (hpeer : isTrustedProxy net trusted peer = true) {first rest : Bytes}
    (hrest : ¬AllPassed net trusted rest) :
    scan net trusted peer first = scan net trusted peer rest ↔ SameLast net trusted first rest := by
  obtain ⟨hop, hlast⟩ := (passed_or_last rest).resolve_left hrest
  -- an address that is not passed over is not the peer's
  have hne {hop address} (h : LastUnpassed net trusted hop address) {a : Bytes}
      (hnamed : named net address = some a) : a ≠ peer := by
    obtain ⟨_, _, _, hnot, _⟩ := h
    rintro rfl
    exact named_untrusted hnot hnamed hpeer
  constructor
  · intro heq
    rw [scan_last hlast] at heq
    refine ⟨hop, hlast, ?_⟩
    rcases passed_or_last first with hall | ⟨other, hother⟩
    · rw [scan_passed hall] at heq
      cases hnamed : named net hop with
      | none => exact .inr ⟨rfl, hall⟩
      | some a =>
        rw [hnamed] at heq
        exact absurd heq.symm (hne hlast hnamed)
    · rw [scan_last hother] at heq
      refine .inl ⟨other, hother, ?_⟩
      cases hfirst : named net other with
      | none =>
        cases hnamed : named net hop with
        | none => rfl
        | some a =>
          rw [hfirst, hnamed] at heq
          exact absurd heq.symm (hne hlast hnamed)
      | some b =>
        cases hnamed : named net hop with
        | none =>
          rw [hfirst, hnamed] at heq
          exact absurd heq (hne hother hfirst)
        | some a =>
          rw [hfirst, hnamed] at heq
          exact congrArg some heq
  · rintro ⟨hop, hlast, ⟨other, hother, hsame⟩ | ⟨hnone, hall⟩⟩
    · rw [scan_last hlast, scan_last hother, hsame]
    · rw [scan_last hlast, scan_passed hall, hnone, Option.getD_none]

theorem walk_trusted (h : isTrustedProxy net trusted (walk net trusted peer hops) = true) :
    walk net trusted peer hops = peer := by
  induction hops with
  | nil => rfl
  | cons hop hops ih =>
    rw [walk] at h ⊢
    split at h
    · rfl
    · next ip hparse =>
      by_cases htrusted : isTrustedProxy net trusted (net.string (net.unmap ip)) = true
      · rw [if_pos htrusted] at h ⊢
        exact ih h
      · rw [if_neg htrusted] at h
        exact absurd h htrusted

/-! The servers. -/

theorem selfHost_clientIP (seen : Bool) (r : Request) :
    (SelfHost.clientIP net trusted seen r).1 = Hosted.clientIP net trusted r := by
  unfold SelfHost.clientIP Hosted.clientIP
  dsimp only
  split
  · rfl
  · split <;> rfl

theorem clientIP_untrusted {r : Request} (h : isTrustedProxy net trusted (peerIP net r) = false) :
    Hosted.clientIP net trusted r = peerIP net r := by
  simp [Hosted.clientIP, h]

theorem clientIP_scan {r : Request} (h : isTrustedProxy net trusted (peerIP net r) = true) :
    Hosted.clientIP net trusted r = scan net trusted (peerIP net r) r.forwarded := by
  unfold Hosted.clientIP
  dsimp only
  rw [h]
  by_cases hnone : r.forwarded = []
  · simp [hnone, scan_nil]
  · simp [hnone, scan]

/-- **The rightmost hop that is not a trusted proxy decides.** A peer that is not trusted is the
    client. Otherwise, once the right part of the line has a hop that is unparsable or untrusted, it
    makes no difference what stands to the left of it. The result is no trusted proxy, unless it is
    the peer. Both servers agree. -/
theorem clientIP_rightmost {Addr Range : Type} (net : Net Addr Range) (trusted : List Range) :
    (∀ r : Request, isTrustedProxy net trusted (peerIP net r) = false →
      Hosted.clientIP net trusted r = peerIP net r) ∧
    (∀ (remoteAddr left right : Bytes), ¬AllPassed net trusted right →
      Hosted.clientIP net trusted ⟨remoteAddr, [left ++ 44 :: right]⟩ =
        Hosted.clientIP net trusted ⟨remoteAddr, [right]⟩) ∧
    (∀ r : Request, isTrustedProxy net trusted (Hosted.clientIP net trusted r) = true →
      Hosted.clientIP net trusted r = peerIP net r) ∧
    ∀ (seen : Bool) (r : Request),
      (SelfHost.clientIP net trusted seen r).1 = Hosted.clientIP net trusted r := by
  refine ⟨fun r => clientIP_untrusted, fun remoteAddr left right hright => ?_, fun r hresult => ?_,
    selfHost_clientIP⟩
  · cases hpeer : isTrustedProxy net trusted (peerIP net ⟨remoteAddr, [right]⟩) with
    | false =>
      exact (clientIP_untrusted (r := ⟨_, [left ++ 44 :: right]⟩) hpeer).trans
        (clientIP_untrusted hpeer).symm
    | true =>
      rw [clientIP_scan (r := ⟨_, [right]⟩) hpeer, clientIP_scan (r := ⟨_, [left ++ 44 :: right]⟩) hpeer]
      exact (scan_append left right).2 hright
  · cases hpeer : isTrustedProxy net trusted (peerIP net r) with
    | false => exact clientIP_untrusted hpeer
    | true =>
      rw [clientIP_scan hpeer] at hresult ⊢
      exact walk_trusted hresult

/-- The lines as one, with commas in between. -/
def joined (lines : List Bytes) : Bytes := [44].intercalate lines

/-- **Several lines.** With a trusted peer, the lines give what they give as one line exactly when
    every hop of the lines after the first is a trusted proxy, or the last one that is not names the
    address that the last such hop of the first line names; if it names none, the first line has no
    such hop or its last one names none either. Then the key of the rate limit is the same too. -/
theorem clientIP_joined_iff {Addr Range : Type} (net : Net Addr Range) (trusted : List Range)
    (seen : Bool) {r : Request} (peer : isTrustedProxy net trusted (peerIP net r) = true) :
    let one : Request := { r with forwardedFor := [joined r.forwardedFor] }
    let same := ∀ first rest, r.forwardedFor = first :: rest → rest ≠ [] →
      AllPassed net trusted (joined rest) ∨ SameLast net trusted first (joined rest)
    (Hosted.clientIP net trusted r = Hosted.clientIP net trusted one ↔ same) ∧
    ((SelfHost.clientIP net trusted seen r).1 = (SelfHost.clientIP net trusted seen one).1 ↔ same) ∧
    (same → Hosted.clientLimitKey net trusted r = Hosted.clientLimitKey net trusted one ∧
      SelfHost.clientLimitKey net trusted seen r = SelfHost.clientLimitKey net trusted seen one) := by
  intro one same
  have hiff : Hosted.clientIP net trusted r = Hosted.clientIP net trusted one ↔ same := by
    obtain ⟨remoteAddr, lines⟩ := r
    have hscan : ∀ lines, Hosted.clientIP net trusted ⟨remoteAddr, lines⟩ =
        scan net trusted (peerIP net ⟨remoteAddr, lines⟩) (lines.headD []) := fun lines =>
      clientIP_scan (r := ⟨remoteAddr, lines⟩) peer
    rcases lines with _ | ⟨first, _ | ⟨second, rest⟩⟩
    · exact iff_of_true ((hscan _).trans (hscan _).symm) fun first rest h => by cases h
    · have hone : one = ⟨remoteAddr, [first]⟩ := by simp [one, joined]
      refine iff_of_true (by rw [hone]) fun _ _ h hrest => ?_
      cases h
      exact absurd rfl hrest
    · have hone : joined (first :: second :: rest) = first ++ 44 :: joined (second :: rest) := by
        rw [joined, List.intercalate_cons_of_ne_nil (by simp)]
        simp [joined]
      have happend := @scan_append _ _ net trusted
        (peerIP net ⟨remoteAddr, first :: second :: rest⟩) first (joined (second :: rest))
      rw [hscan, hscan, List.headD_cons, List.headD_cons, hone]
      constructor
      · rintro heq _ _ h -
        cases h
        refine or_iff_not_imp_left.mpr fun hnot => ?_
        exact (scan_eq_iff peer hnot).mp (heq.trans (happend.2 hnot))
      · intro h
        by_cases hall : AllPassed net trusted (joined (second :: rest))
        · exact (happend.1 hall).symm
        · have hsame := (h first (second :: rest) rfl (by simp)).resolve_left hall
          exact ((scan_eq_iff peer hall).mpr hsame).trans (happend.2 hall).symm
  refine ⟨hiff, by rw [selfHost_clientIP, selfHost_clientIP]; exact hiff, fun h => ?_⟩
  have hsame := hiff.mpr h
  refine ⟨congrArg (limitKey net) hsame, congrArg (limitKey net) ?_⟩
  rw [selfHost_clientIP, selfHost_clientIP]
  exact hsame

namespace Demo

/-- Dotted quads, and ranges of them by their first bits; everything else is unparsable. -/
def quads : Net Nat (Nat × Nat) where
  splitHostPort s := (Text.cut [58] s).map Prod.fst
  parseAddr s :=
    match (s.splitOn 46).mapM Text.parseUint with
    | some [a, b, c, d] =>
      if a < 256 ∧ b < 256 ∧ c < 256 ∧ d < 256 then some (((a * 256 + b) * 256 + c) * 256 + d) else none
    | _ => none
  unmap ip := ip
  string ip := [46].intercalate
    ([ip / 16777216, ip / 65536 % 256, ip / 256 % 256, ip % 256].map Encoding.decimal)
  contains range ip := range.1 / 2 ^ (32 - range.2) == ip / 2 ^ (32 - range.2)
  is6 _ := false
  prefix64 _ := none
  near _ := false
  parse_nil := by decide

/-- 10.0.0.0/8. -/
def ours : List (Nat × Nat) := [(167772160, 8)]

/-- The client has sent a line of its own, and the proxy has added one. -/
def spoofed : Request :=
  ⟨utf8 "10.0.0.1:443", [utf8 "203.0.113.9", utf8 "198.51.100.7"]⟩

theorem first_line_wins : isTrustedProxy quads ours (peerIP quads spoofed) = true ∧
    Hosted.clientIP quads ours spoofed = utf8 "203.0.113.9" ∧
    (SelfHost.clientIP quads ours false spoofed).1 = utf8 "203.0.113.9" ∧
    Hosted.clientIP quads ours { spoofed with forwardedFor := [joined spoofed.forwardedFor] } =
      utf8 "198.51.100.7" := by
  decide +kernel

/-- A second line that names a proxy changes nothing. -/
def relayed : Request :=
  ⟨utf8 "10.0.0.1:443", [utf8 "203.0.113.9", utf8 "10.0.0.2"]⟩

theorem relayed_as_one_line : Hosted.clientIP quads ours relayed =
    Hosted.clientIP quads ours { relayed with forwardedFor := [joined relayed.forwardedFor] } := by
  refine (clientIP_joined_iff quads ours false (r := relayed) (by decide +kernel)).1.mpr ?_
  rintro _ _ h -
  cases h
  refine .inl fun hop hhop => ⟨167772162, ?_⟩
  rw [show joined [utf8 "10.0.0.2"] = utf8 "10.0.0.2" by decide +kernel,
    show (utf8 "10.0.0.2").splitOn 44 = [utf8 "10.0.0.2"] by decide +kernel] at hhop
  rw [List.mem_singleton.mp hhop]
  decide +kernel

end Demo

end Sesame.Proxies

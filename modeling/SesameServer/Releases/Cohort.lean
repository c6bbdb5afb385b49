import SesameServer.Lib.Sha256

/- The accounts that a staged release is rolled out to. Two packages decide it, each from a digest
   of its own.

   1. `includedInRollout` — the desktop updater (`internal/httpapi/desktop_updates.go`): the first
      two bytes of a digest over the release and the account.
   2. `rolloutIncludes` — the list of downloads (`internal/accounts/security.go`): the first byte of
      a digest over the account and the release.
   3. `rollouts_agree_iff` — the percentages for which they put every account in the same cohort. -/
namespace Sesame.Releases

/-- The cohort of an account, from the first two bytes of the digest. -/
def rolloutCohort (releaseID accountID : Bytes) : Nat :=
  let digest := Sha256.sum
    (utf8 "sesame-release-rollout-v1" ++ [0] ++ releaseID ++ [0] ++ accountID)
  ((digest.getD 0 0).toNat * 256 + (digest.getD 1 0).toNat) % 100

def includedInRollout (releaseID accountID : Bytes) (percent : Int) : Bool :=
  if percent ≥ 100 then true
  else if percent ≤ 0 ∨ releaseID = [] ∨ accountID = [] then false
  else decide ((rolloutCohort releaseID accountID : Int) < percent)

/-- The cohort of an account in the list of downloads, from the first byte. -/
def downloadCohort (accountID releaseID : Bytes) : Nat :=
  ((Sha256.sum (accountID ++ [0] ++ releaseID)).getD 0 0).toNat % 100

def rolloutIncludes (accountID releaseID : Bytes) (rolloutPercent : Int) : Bool :=
  if rolloutPercent ≥ 100 then true
  else if rolloutPercent ≤ 0 then false
  else decide ((downloadCohort accountID releaseID : Int) < rolloutPercent)

namespace Demo

/-- Ids as `newID` draws them: sixteen bytes in hexadecimal, and 32 characters of Base64. -/
def account : Bytes := utf8 "cb2653f548f8709598e8b5156738cc51"
def release : Bytes := utf8 "bX9Qm2vT0c8LrYhZ4sJdKeWfAuGiNoPp"

/-- The first cohort of the downloads is the last one of the updater. -/
theorem cohorts : downloadCohort account release = 0 ∧ rolloutCohort release account = 99 := by
  decide +kernel

/-- Half of the accounts: the release is listed for download, the updater does not offer it. -/
theorem listed_not_offered : rolloutIncludes account release 50 = true ∧
    includedInRollout release account 50 = false := by
  decide +kernel

end Demo

/-- **The two surfaces agree on every account and release exactly when nothing is staged**: for no
    account, or for all of them. For every percentage in between one pair of ids tells them apart. -/
theorem rollouts_agree_iff (percent : Int) :
    (∀ accountID releaseID : Bytes, rolloutIncludes accountID releaseID percent =
      includedInRollout releaseID accountID percent) ↔ percent ≤ 0 ∨ 100 ≤ percent := by
  constructor
  · intro agree
    by_contra staged
    obtain ⟨hpos, hless⟩ := not_or.mp staged
    have hsame := agree Demo.account Demo.release
    have hids : ¬(percent ≤ 0 ∨ Demo.release = [] ∨ Demo.account = []) := by
      rintro (h | h | h)
      · exact hpos h
      · exact absurd h (by decide)
      · exact absurd h (by decide)
    rw [rolloutIncludes, includedInRollout, if_neg hless, if_neg hpos, if_neg hless, if_neg hids,
      Demo.cohorts.1, Demo.cohorts.2, decide_eq_decide] at hsame
    have := hsame.mp (by omega)
    omega
  · rintro (hnone | hall) accountID releaseID
    · have hless : ¬percent ≥ 100 := by omega
      rw [rolloutIncludes, includedInRollout, if_neg hless, if_neg hless, if_pos hnone,
        if_pos (.inl hnone)]
    · rw [rolloutIncludes, includedInRollout, if_pos hall, if_pos hall]

end Sesame.Releases

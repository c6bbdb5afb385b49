import Mathlib.Data.List.Perm.Basic
import SesameServer.Deploy.Release

/- The production env file (`rewriteEnvImages` and `readEnvImages` of
   `scripts/deploy-release-lib.mjs`).

   1. `imageLine`, `rewriteEnvImages` — the three lines that name the images, each exactly once.
   2. `rewriteEnvImages_ok` — when a rewrite succeeds, and what it writes.
   3. `Pinned`, `rewrite_pinned`, `rewrite_other` — the result carries the three references and
      every other line as it was; rewriting it is rewriting the file it was made from.
   4. `readEnvImages` — the references that a file names now; `rewriteEnvImages_exact` — after a
      rewrite, those that were given. -/
namespace Sesame.Deploy

/-! Lines. -/

/-- `text.split('\n')`. -/
def lines (text : Text) : List Text := text.splitOn '\n'

/-- `lines.join('\n')`. -/
def unlines (ls : List Text) : Text := List.intercalate ['\n'] ls

theorem lines_ne_nil (text : Text) : lines text ≠ [] := List.splitOn_ne_nil '\n' text

variable {text line : Text} {ls : List Text} {c : Component}

theorem mem_lines (h : line ∈ lines text) : ∀ x ∈ line, x ∈ text ∧ x ≠ '\n' := by
  induction text generalizing line with
  | nil =>
    simp only [lines, List.splitOn_nil, List.mem_singleton] at h
    simp [h]
  | cons c rest ih =>
    have hcons : ∀ line ∈ lines rest, ∀ x ∈ line, x ∈ c :: rest ∧ x ≠ '\n' := fun line hline x hx =>
      (ih hline x hx).imp_left (List.mem_cons_of_mem c)
    rw [lines, List.splitOn_cons_eq_if_modifyHead] at h
    split at h
    · rcases List.mem_cons.mp h with rfl | h
      · simp
      · exact hcons line h
    · next hc =>
      have hc : c ≠ '\n' := by simpa using hc
      cases hsplit : rest.splitOn '\n' with
      | nil => exact absurd hsplit (List.splitOn_ne_nil '\n' rest)
      | cons first others =>
        rw [lines, hsplit] at hcons
        rw [hsplit, List.modifyHead_cons] at h
        rcases List.mem_cons.mp h with rfl | h
        · intro x hx
          rcases List.mem_cons.mp hx with rfl | hx
          · exact ⟨List.mem_cons_self, hc⟩
          · exact hcons first List.mem_cons_self x hx
        · exact hcons line (List.mem_cons_of_mem _ h)

theorem lines_unlines (hne : ls ≠ []) (h : ∀ l ∈ ls, '\n' ∉ l) :
    lines (unlines ls) = ls := List.splitOn_intercalate '\n' h hne

/-! The lines of the images. -/

/-- `FIELD=` at the start of a line. -/
def Component.assign (c : Component) : Text := c.field ++ ['=']

/-- The component whose image the line names: `/^FIELD=(.*)$/`, where `.` stops at a line
    terminator. -/
def imageLine (line : Text) : Option Component :=
  Component.all.find? fun c => c.assign.isPrefixOf line &&
    (line.drop c.assign.length).all (!isLineTerminator ·)

/-- `images[component].reference`. -/
def referenceOf (images : RawImages) (c : Component) : Except Err Text :=
  match rawReference (images.get c) with
  | some reference => .ok reference
  | none => raise ["Cannot read properties of undefined (reading 'reference')".toList]

def rewriteLines (images : RawImages) : List Component → List Text →
    Except Err (List Component × List Text)
  | seen, [] => .ok (seen, [])
  | seen, line :: rest =>
    match imageLine line with
    | none => do
      let (seen, rewritten) ← rewriteLines images seen rest
      return (seen, line :: rewritten)
    | some c =>
      if c ∈ seen then
        raise [c.field, " appears more than once in the production env file.".toList]
      else do
        let reference ← referenceOf images c
        let (seen, rewritten) ← rewriteLines images (c :: seen) rest
        return (seen, (c.assign ++ reference) :: rewritten)

def rewriteEnvImages (text : Text) (images : RawImages) : Except Err Text := do
  let (seen, rewritten) ← rewriteLines images [] (lines text)
  match Component.all.find? (· ∉ seen) with
  | some c =>
    raise ["The production env file does not set ".toList, c.field,
      ", so the deploy tool would not own that image.".toList]
  | none => return unlines rewritten

/-! What a rewrite does. -/

section
variable (refs : Component → Text)

def pinnedLine (c : Component) : Text := c.assign ++ refs c

/-- A line of the file after the rewrite. -/
def repin (line : Text) : Text :=
  match imageLine line with
  | some c => pinnedLine refs c
  | none => line

def imagesOf (ls : List Text) : List Component := ls.filterMap imageLine

end

theorem imagesOf_cons_none (h : imageLine line = none) :
    imagesOf (line :: ls) = imagesOf ls := by simp [imagesOf, h]

theorem imagesOf_cons_some (h : imageLine line = some c) :
    imagesOf (line :: ls) = c :: imagesOf ls := by simp [imagesOf, h]

section
variable {images : RawImages} {refs : Component → Text}
  (href : ∀ c, rawReference (images.get c) = some (refs c))
include href

theorem referenceOf_eq (c : Component) : referenceOf images c = .ok (refs c) := by
  simp [referenceOf, href c]

/-- Every image line is met for the first time, or the rewrite fails. -/
theorem rewriteLines_ok {seen : List Component} {out : List Component × List Text} :
    rewriteLines images seen ls = .ok out ↔
      (imagesOf ls).Nodup ∧ (∀ c ∈ imagesOf ls, c ∉ seen) ∧
        out = ((imagesOf ls).reverse ++ seen, ls.map (repin refs)) := by
  induction ls generalizing seen out with
  | nil =>
    constructor
    · intro h
      cases h
      simp [imagesOf]
    · rintro ⟨-, -, rfl⟩
      rfl
  | cons line rest ih =>
    cases hline : imageLine line with
    | none =>
      simp only [rewriteLines, hline, Outcome.except_bind_ok, ih, imagesOf_cons_none hline, List.map_cons,
        repin]
      constructor
      · rintro ⟨_, ⟨hnodup, hseen, rfl⟩, h⟩
        cases h
        exact ⟨hnodup, hseen, rfl⟩
      · rintro ⟨hnodup, hseen, rfl⟩
        exact ⟨_, ⟨hnodup, hseen, rfl⟩, rfl⟩
    | some c =>
      simp only [rewriteLines, hline, imagesOf_cons_some hline, List.map_cons, repin]
      by_cases hc : c ∈ seen
      · simp only [hc, if_true]
        constructor
        · intro h
          cases h
        · rintro ⟨-, hseen, -⟩
          exact absurd hc (hseen c (by simp))
      · simp only [hc, if_false, referenceOf_eq href, Outcome.except_bind_ok, ih]
        constructor
        · rintro ⟨_, ⟨⟩, _, ⟨hnodup, hseen, rfl⟩, h⟩
          cases h
          refine ⟨List.nodup_cons.mpr ⟨fun hmem => hseen c hmem (by simp), hnodup⟩, ?_, by simp [pinnedLine]⟩
          intro d hd
          rcases List.mem_cons.mp hd with rfl | hd
          · exact hc
          · exact fun h => hseen d hd (List.mem_cons_of_mem c h)
        · rintro ⟨hnodup, hseen, rfl⟩
          obtain ⟨hfresh, hnodup⟩ := List.nodup_cons.mp hnodup
          refine ⟨_, rfl, _, ⟨hnodup, ?_, rfl⟩, by simp [pinnedLine, Pure.pure, Except.pure]⟩
          intro d hd h
          rcases List.mem_cons.mp h with rfl | h
          · exact hfresh hd
          · exact hseen d (List.mem_cons_of_mem c hd) h

/-- **A rewrite succeeds when each image has exactly one line**, and changes these lines alone. -/
theorem rewriteEnvImages_ok {out : Text} : rewriteEnvImages text images = .ok out ↔
      (imagesOf (lines text)).Perm Component.all ∧ out = unlines ((lines text).map (repin refs)) := by
  simp only [rewriteEnvImages, Outcome.except_bind_ok, rewriteLines_ok href, List.append_nil]
  constructor
  · rintro ⟨_, ⟨hnodup, -, rfl⟩, h⟩
    dsimp only at h
    split at h
    · cases h
    · next hfound =>
      cases h
      refine ⟨?_, rfl⟩
      rw [List.perm_ext_iff_of_nodup hnodup (by decide)]
      intro c
      have := List.find?_eq_none.mp hfound c (Component.mem_all c)
      simp only [List.mem_reverse, decide_not, Bool.not_eq_true', decide_eq_false_iff_not,
        Decidable.not_not] at this
      exact ⟨fun _ => Component.mem_all c, fun _ => this⟩
  · rintro ⟨hperm, rfl⟩
    refine ⟨_, ⟨hperm.nodup_iff.mpr (by decide), by simp, rfl⟩, ?_⟩
    have hfound : Component.all.find? (fun c => decide (c ∉ (imagesOf (lines text)).reverse)) = none := by
      refine List.find?_eq_none.mpr fun c hc => ?_
      simp [hperm.mem_iff.mpr hc]
    dsimp only
    rw [hfound]
    rfl

end

/-! The file that is pinned. -/

/-- `new` is `old` with the image lines replaced, and has one image line for each component. -/
structure Pinned (refs : Component → Text) (old new : Text) : Prop where
  rest : lines new = (lines old).map (repin refs)
  images : ((lines new).filter fun line => (imageLine line).isSome).Perm
    (Component.all.map (pinnedLine refs))

section
variable {refs : Component → Text}

/-- A reference that does not break the line. -/
def Plain (refs : Component → Text) : Prop := ∀ c, ∀ x ∈ refs c, isLineTerminator x = false

section
variable (hplain : Plain refs)
include hplain

theorem imageLine_pinned (c : Component) : imageLine (pinnedLine refs c) = some c := by
  have hrest : ((pinnedLine refs c).drop c.assign.length).all (!isLineTerminator ·) = true := by
    simp only [pinnedLine, List.drop_left, List.all_eq_true, Bool.not_eq_true']
    exact hplain c
  have hassign : c.assign.isPrefixOf (pinnedLine refs c) = true :=
    List.isPrefixOf_iff_prefix.mpr (List.prefix_append _ _)
  have hothers : ∀ d, d ≠ c → d.assign.isPrefixOf (pinnedLine refs c) = false := by
    intro d hd
    cases c <;> cases d <;> first | exact absurd rfl hd | rfl
  simp only [imageLine]
  cases c <;>
    simp only [Component.all, List.find?, hassign, hrest, hothers, ne_eq, reduceCtorEq,
      not_false_eq_true, Bool.and_self, Bool.false_and]

theorem pinned_plain (c : Component) : ∀ x ∈ pinnedLine refs c, isLineTerminator x = false := by
  have hassign : (c.assign.all fun x => !isLineTerminator x) = true := by
    cases c <;> decide
  intro x hx
  rcases List.mem_append.mp hx with hx | hx
  · simpa using List.all_eq_true.mp hassign x hx
  · exact hplain c x hx

theorem imageLine_repin (line : Text) : imageLine (repin refs line) = imageLine line := by
  unfold repin
  split
  · next c hc => rw [imageLine_pinned hplain, hc]
  · rfl

theorem lines_rewritten (text : Text) :
    lines (unlines ((lines text).map (repin refs))) = (lines text).map (repin refs) := by
  refine lines_unlines (by simp [lines_ne_nil]) fun l hl => ?_
  obtain ⟨line, hline, rfl⟩ := List.mem_map.mp hl
  unfold repin
  split
  · exact fun hbreak => absurd (pinned_plain hplain _ _ hbreak) (by decide)
  · exact fun hbreak => (mem_lines hline _ hbreak).2 rfl

theorem rewriteLines_repin {images : RawImages} (ls : List Text) (seen : List Component) :
    rewriteLines images seen (ls.map (repin refs)) = rewriteLines images seen ls := by
  induction ls generalizing seen with
  | nil => rfl
  | cons line rest ih =>
    simp only [List.map_cons, rewriteLines, imageLine_repin hplain, ih]
    cases hline : imageLine line with
    | none => simp only [repin, hline]
    | some c => rfl

/-- The image lines of the result are the pinned lines of the components that it names. -/
theorem filter_repin (ls : List Text) :
    (ls.map (repin refs)).filter (fun line => (imageLine line).isSome) =
      (imagesOf ls).map (pinnedLine refs) := by
  induction ls with
  | nil => rfl
  | cons line rest ih =>
    rw [List.map_cons, List.filter_cons, imageLine_repin hplain, ih]
    cases hline : imageLine line with
    | none => simp [imagesOf_cons_none hline]
    | some c => simp [imagesOf_cons_some hline, repin, hline]

end

variable {images : RawImages} (href : ∀ c, rawReference (images.get c) = some (refs c))
include href

/-- **The rewritten file carries the three references and every other line as it was.** -/
theorem rewrite_pinned (hplain : Plain refs) {out : Text}
    (h : rewriteEnvImages text images = .ok out) : Pinned refs text out := by
  obtain ⟨hperm, rfl⟩ := (rewriteEnvImages_ok href).mp h
  refine ⟨lines_rewritten hplain text, ?_⟩
  rw [lines_rewritten hplain, filter_repin hplain]
  exact hperm.map _

/-- **Rewriting the result is rewriting the file.** -/
theorem rewrite_other (hplain : Plain refs) {out : Text}
    (h : rewriteEnvImages text images = .ok out) (images' : RawImages) :
    rewriteEnvImages out images' = rewriteEnvImages text images' := by
  obtain ⟨-, rfl⟩ := (rewriteEnvImages_ok href).mp h
  unfold rewriteEnvImages
  rw [lines_rewritten hplain, rewriteLines_repin hplain]

theorem rewrite_again (hplain : Plain refs) {out : Text}
    (h : rewriteEnvImages text images = .ok out) : rewriteEnvImages out images = .ok out :=
  (rewrite_other href hplain h images).trans h

end

/-! Reading. -/

/-- `/^FIELD=(.*)$/m`: the first line, where a line ends at any terminator. -/
def readEnvImage (text : Text) (c : Component) : Except Err (Option RawImage) :=
  match (text.splitOnP isLineTerminator).find? (c.assign.isPrefixOf ·) with
  | some line => .ok (some (.named (some (trim (line.drop c.assign.length))) none none))
  | none => raise ["The production env file does not set ".toList, c.field, ".".toList]

def readEnvImages (text : Text) : Except Err RawImages := do
  let api ← readEnvImage text .api
  let account ← readEnvImage text .account
  let admin ← readEnvImage text .admin
  return ⟨api, account, admin⟩

theorem trim_eq {t : Text} (h : ∀ x ∈ t, isSpace x = false) : trim t = t := by
  have hdrop : ∀ {t : Text}, (∀ x ∈ t, isSpace x = false) → t.dropWhile isSpace = t := by
    intro t h
    cases t with
    | nil => rfl
    | cons x t => rw [List.dropWhile_cons_of_neg (by simp [h x List.mem_cons_self])]
  rw [trim, hdrop h, hdrop (by simpa using h), List.reverse_reverse]

/-- Lines that nothing breaks are those of their text, wherever a line may end. -/
theorem splitOnP_unlines (hne : ls ≠ []) (h : ∀ l ∈ ls, ∀ x ∈ l, isLineTerminator x = false) :
    (unlines ls).splitOnP isLineTerminator = ls := by
  induction ls with
  | nil => exact absurd rfl hne
  | cons l rest ih =>
    have hl := List.splitOnP_eq_singleton (h l List.mem_cons_self)
    cases rest with
    | nil => simpa [unlines] using hl
    | cons l' rest =>
      rw [unlines, List.intercalate_cons_cons, List.append_assoc, List.singleton_append,
        List.splitOnP_append_cons _ _ rfl, hl, ← unlines,
        ih (by simp) fun m hm => h m (List.mem_cons_of_mem _ hm)]
      rfl

theorem imageLine_of_assign (hline : ∀ x ∈ line, isLineTerminator x = false) :
    c.assign.isPrefixOf line = true ↔ imageLine line = some c := by
  constructor
  · intro h
    obtain ⟨rest, rfl⟩ := List.isPrefixOf_iff_prefix.mp h
    have hplain : Plain fun _ => rest := fun _ x hx => hline x (List.mem_append_right _ hx)
    exact imageLine_pinned hplain c
  · intro h
    have := List.find?_some h
    exact (Bool.and_eq_true_iff.mp this).1

theorem readEnvImage_rewritten {refs : Component → Text} (hplain : Plain refs)
    (hlines : ∀ line ∈ lines text, ∀ x ∈ line, isLineTerminator x = false)
    (hc : c ∈ imagesOf (lines text)) : readEnvImage (unlines ((lines text).map (repin refs))) c =
      .ok (some (.named (some (trim (refs c))) none none)) := by
  have hrepin : ∀ line ∈ lines text, ∀ x ∈ repin refs line, isLineTerminator x = false := by
    intro line hline
    unfold repin
    split
    · exact pinned_plain hplain _
    · exact hlines line hline
  have hassign : ∀ line ∈ lines text,
      c.assign.isPrefixOf (repin refs line) = true ↔ imageLine line = some c := by
    intro line hline
    rw [imageLine_of_assign (hrepin line hline), imageLine_repin hplain]
  obtain ⟨line, hline, himage⟩ := List.mem_filterMap.mp hc
  obtain ⟨found, hfound⟩ := Option.isSome_iff_exists.mp ((List.find?_isSome
    (p := (c.assign.isPrefixOf ·) ∘ repin refs)).mpr ⟨line, hline, (hassign line hline).mpr himage⟩)
  have hprefix := List.find?_some hfound
  have hpinned := (hassign found (List.mem_of_find?_eq_some hfound)).mp hprefix
  unfold readEnvImage
  rw [splitOnP_unlines (by simp [lines_ne_nil]) (by simpa using hrepin), List.find?_map, hfound,
    Option.map_some]
  simp only [repin, hpinned, pinnedLine, List.drop_left]

/-- **Reader and writer of the image lines are inverse.** The rewritten file has the lines of the
    file, but for the three lines of the images, which carry the references; these are read from
    it; and a rewrite of it is the same rewrite of the file. -/
theorem rewriteEnvImages_exact {images : RawImages} {refs : Component → Text} {text out : Text}
    (htext : ∀ x ∈ text, isLineTerminator x = true → x = '\n')
    (href : ∀ c, rawReference (images.get c) = some (refs c))
    (hrefs : ∀ c, ∀ x ∈ refs c, isSpace x = false) (h : rewriteEnvImages text images = .ok out) :
    Pinned refs text out ∧
    (∃ read, readEnvImages out = .ok read ∧ ∀ c, read.get c = some (.named (some (refs c)) none none)) ∧
    rewriteEnvImages out images = .ok out ∧
    ∀ images', rewriteEnvImages out images' = rewriteEnvImages text images' := by
  have hplain : Plain refs := fun c x hx => Bool.eq_false_iff.mpr fun hbreak =>
    absurd (isSpace_of_isLineTerminator hbreak) (by simp [hrefs c x hx])
  refine ⟨rewrite_pinned href hplain h, ?_, rewrite_again href hplain h, rewrite_other href hplain h⟩
  obtain ⟨hperm, rfl⟩ := (rewriteEnvImages_ok href).mp h
  have hlines : ∀ line ∈ lines text, ∀ x ∈ line, isLineTerminator x = false := by
    intro line hline x hx
    obtain ⟨hmem, hbreak⟩ := mem_lines hline x hx
    exact Bool.eq_false_iff.mpr fun hterm => hbreak (htext x hmem hterm)
  have hread := fun c => readEnvImage_rewritten hplain hlines
    (hperm.mem_iff.mpr (Component.mem_all c))
  refine ⟨_, by simp only [readEnvImages, hread, trim_eq (hrefs _)]; rfl, fun c => ?_⟩
  cases c <;> rfl

namespace Demo

def file : Text :=
  "SESAME_API_IMAGE=a\nPORT=1\nSESAME_ACCOUNT_IMAGE=b\nSESAME_ADMIN_IMAGE=c".toList

def sameImage (reference : Text) : RawImages :=
  let image := some (.named (some reference) none none)
  ⟨image, image, image⟩

theorem rewritten_reads : ∃ out, rewriteEnvImages file (sameImage ['d']) = .ok out ∧
    ∃ read, readEnvImages out = .ok read ∧ ∀ c, read.get c = some (.named (some ['d']) none none) := by
  obtain ⟨out, h⟩ : ∃ out, rewriteEnvImages file (sameImage ['d']) = .ok out := ⟨_, rfl⟩
  have href : ∀ c, rawReference ((sameImage ['d']).get c) = some ['d'] := by
    intro c
    cases c <;> rfl
  have htext : (file.all fun x => !isLineTerminator x || x == '\n') = true := by decide +kernel
  refine ⟨out, h, (rewriteEnvImages_exact (fun x hx hline => ?_) href
    (fun _ => List.forall_mem_singleton.mpr (by decide)) h).2.1⟩
  simpa [hline] using List.all_eq_true.mp htext x hx

end Demo

end Sesame.Deploy

import HackVM.Files.Path
import Mathlib.Data.List.Infix
import Mathlib.Data.List.TakeWhile
import Mathlib.Tactic.SplitIfs

/-!
# The parts of a path

A path is text; what counts of it are the parts between its separators. Its name and its extension
are found from the end of the text, a walk along it takes the parts from the front. Here the two are
brought together.

* A text is what stands up to its last separator, and its last part behind it (`exists_lastPart`).
  If the last part is neither empty nor a dot, it is the name of the path, unless it is `..`
  (`split?_of_lastPart`). Otherwise it does not count, and the name is that of the text before it
  (`split?_of_trailing`).
* An extension is what stands behind the last dot of a name (`splitName_append`), so a text that
  ends in a dot and some other extension has not the one that is asked for
  (`extension?_ne_of_isSuffix`).
* The *components* of a path are the parts that count, and where it starts. Paths with the same
  components are the same path. The name of a path is its last component (`fileName?_eq_some_iff`).
-/

namespace HackVM.Path

/-! ## The last part -/

/-- Every text has at least one part. -/
theorem splitParts_ne_nil (cs : List Char) : splitParts cs ≠ [] := by
  cases cs with
  | nil => exact List.cons_ne_nil _ _
  | cons c cs =>
      rw [splitParts]
      split_ifs
      · exact List.cons_ne_nil _ _
      · split <;> exact List.cons_ne_nil _ _

/-- The parts hold the characters of the text but for the separators. -/
theorem mem_of_mem_splitParts {cs part : List Char} (h : part ∈ splitParts cs) :
    '/' ∉ part ∧ ∀ c ∈ part, c ∈ cs := by
  induction cs generalizing part with
  | nil =>
      rw [splitParts, List.mem_singleton] at h
      subst h
      exact ⟨List.not_mem_nil, nofun⟩
  | cons c cs ih =>
      rw [splitParts] at h
      split_ifs at h with hc
      · rcases List.mem_cons.mp h with rfl | h
        · exact ⟨List.not_mem_nil, nofun⟩
        · exact ⟨(ih h).1, fun d hd => List.mem_cons_of_mem c ((ih h).2 d hd)⟩
      · obtain ⟨first, rest, hparts⟩ := List.exists_cons_of_ne_nil (splitParts_ne_nil cs)
        rw [hparts] at h ih
        rcases List.mem_cons.mp h with rfl | h
        · have hfirst := ih List.mem_cons_self
          refine ⟨by simp [Ne.symm hc, hfirst.1], fun d hd => ?_⟩
          exact List.mem_cons.mpr ((List.mem_cons.mp hd).imp_right (hfirst.2 d))
        · have hrest := ih (List.mem_cons_of_mem first h)
          exact ⟨hrest.1, fun d hd => List.mem_cons_of_mem c (hrest.2 d hd)⟩

/-- A text without a separator is its own only part. -/
theorem splitParts_of_notMem {cs : List Char} (h : '/' ∉ cs) : splitParts cs = [cs] := by
  induction cs with
  | nil => rfl
  | cons c cs ih =>
      rw [List.mem_cons, not_or] at h
      rw [splitParts, if_neg (Ne.symm h.1), ih h.2]

/-- A separator keeps the parts on both sides of it apart. -/
theorem splitParts_append_slash (cs ds : List Char) :
    splitParts (cs ++ '/' :: ds) = splitParts cs ++ splitParts ds := by
  induction cs with
  | nil => rfl
  | cons c cs ih =>
      rw [List.cons_append, splitParts, splitParts, ih]
      split_ifs
      · rfl
      · obtain ⟨part, rest, hparts⟩ := List.exists_cons_of_ne_nil (splitParts_ne_nil cs)
        rw [hparts]
        rfl

/-- The text is empty or ends in a separator, so that a part can stand behind it. -/
def Opens (front : List Char) : Prop :=
  front = [] ∨ ∃ above, front = above ++ ['/']

/-- The parts of a text that ends in a separator, without the empty one at its end. -/
def partsAbove (front : List Char) : List (List Char) :=
  (splitParts front).dropLast

/-- A text is what stands up to its last separator, and the part behind it. -/
theorem exists_lastPart (cs : List Char) :
    ∃ front part, cs = front ++ part ∧ Opens front ∧ '/' ∉ part := by
  induction cs using List.reverseRecOn with
  | nil => exact ⟨[], [], rfl, .inl rfl, List.not_mem_nil⟩
  | append_singleton cs c ih =>
      by_cases hc : c = '/'
      · subst hc
        exact ⟨cs ++ ['/'], [], (List.append_nil _).symm, .inr ⟨cs, rfl⟩, List.not_mem_nil⟩
      · obtain ⟨front, part, rfl, hfront, hpart⟩ := ih
        refine ⟨front, part ++ [c], List.append_assoc .., hfront, ?_⟩
        rw [List.mem_append, List.mem_singleton, not_or]
        exact ⟨hpart, Ne.symm hc⟩

/-- What stands behind the last separator is the last part. -/
theorem splitParts_append {front part : List Char} (hfront : Opens front) (hpart : '/' ∉ part) :
    splitParts (front ++ part) = partsAbove front ++ [part] := by
  unfold partsAbove
  rcases hfront with rfl | ⟨above, rfl⟩
  · exact splitParts_of_notMem hpart
  · rw [List.append_assoc, List.singleton_append, splitParts_append_slash, splitParts_append_slash,
      splitParts_of_notMem hpart]
    exact congrArg (· ++ [part]) List.dropLast_concat.symm

/-- The parts above a separator are those of the text in front of it. -/
theorem partsAbove_concat (above : List Char) : partsAbove (above ++ ['/']) = splitParts above := by
  rw [partsAbove, splitParts_append_slash]
  exact List.dropLast_concat

/-- A text without separators at the end of another one is at the end of its last part. -/
theorem isSuffix_lastPart {front part tail : List Char} (hfront : Opens front) (htail : '/' ∉ tail)
    (h : tail <:+ front ++ part) : tail <:+ part := by
  rcases List.suffix_or_suffix_of_suffix h (List.suffix_append front part) with hle | hle
  · exact hle
  · -- if it is longer than the part, it starts in front of a separator
    obtain ⟨piece, rfl⟩ := hle
    obtain ⟨before, hbefore⟩ := h
    rw [← List.append_assoc] at hbefore
    have hpiece : before ++ piece = front := List.append_cancel_right hbefore
    rcases List.eq_nil_or_concat piece with rfl | ⟨piece, c, rfl⟩
    · exact List.suffix_rfl
    · rcases hfront with rfl | ⟨above, rfl⟩
      · simp at hpiece
      · rw [List.concat_eq_append, ← List.append_assoc] at hpiece
        have hc := List.append_inj_right' hpiece rfl
        rw [List.singleton_inj] at hc
        subst hc
        exact absurd (by simp) htail

/-! ## Names -/

/-- A part that counts for something ends the dropping. -/
theorem dropTrailing_of_part {part rest : List Char} (hslash : '/' ∉ part) (hne : part ≠ [])
    (hdot : part ≠ ['.']) : dropTrailing (part ++ rest) = part ++ rest := by
  obtain ⟨c, cs, rfl⟩ := List.exists_cons_of_ne_nil hne
  rw [List.mem_cons, not_or] at hslash
  cases cs with
  | nil =>
      have hc : c ≠ '.' := fun hc => hdot (by rw [hc])
      rw [List.singleton_append]
      unfold dropTrailing
      split <;> simp_all
  | cons d cs =>
      rw [List.mem_cons, not_or] at hslash
      rw [List.cons_append, List.cons_append]
      unfold dropTrailing
      split <;> simp_all

/-- A last part that is neither empty nor a dot is the name of the path, unless it is `..`. -/
theorem split?_of_lastPart {p : Path} {front part : List Char} (hp : p.text.toList = front ++ part)
    (hfront : Opens front) (hslash : '/' ∉ part) (hne : part ≠ []) (hdot : part ≠ ['.']) :
    p.split? = if part = ['.', '.'] then none else some (front, part) := by
  have hback : dropTrailing p.text.toList.reverse = part.reverse ++ front.reverse := by
    rw [hp, List.reverse_append]
    refine dropTrailing_of_part ?_ ?_ ?_
    · rwa [List.mem_reverse]
    · rwa [ne_eq, List.reverse_eq_nil_iff]
    · rwa [ne_eq, List.reverse_eq_iff]
  -- the part goes up to the first separator from the end
  have hpart : ∀ c ∈ part.reverse, (c != '/') = true := by
    intro c hc
    rw [bne_iff_ne]
    rintro rfl
    exact hslash (List.mem_reverse.mp hc)
  have hcut : front.reverse.takeWhile (· != '/') = [] ∧
      front.reverse.dropWhile (· != '/') = front.reverse := by
    rcases hfront with rfl | ⟨above, rfl⟩
    · exact ⟨rfl, rfl⟩
    · rw [List.reverse_append]
      exact ⟨rfl, rfl⟩
  have hname : (part.reverse ++ front.reverse).takeWhile (· != '/') = part.reverse := by
    rw [List.takeWhile_append_of_pos hpart, hcut.1, List.append_nil]
  have hrest : (part.reverse ++ front.reverse).dropWhile (· != '/') = front.reverse := by
    rw [List.dropWhile_append_of_pos hpart, hcut.2]
  simp only [split?, hback, hname, hrest, List.reverse_reverse, hne, decide_false, Bool.false_or,
    decide_eq_true_eq]

/-- A last part that is empty or a dot does not count. -/
theorem split?_of_trailing {p q : Path} {part : List Char}
    (hp : p.text.toList = q.text.toList ++ '/' :: part) (hpart : part = [] ∨ part = ['.']) :
    p.split? = q.split? := by
  have hback : dropTrailing p.text.toList.reverse = dropTrailing q.text.toList.reverse := by
    rw [hp]
    rcases hpart with rfl | rfl
    · rw [List.reverse_append]
      rfl
    · rw [List.reverse_append]
      rfl
  unfold split?
  rw [hback]

/-- Nor does it if there is nothing else. -/
theorem split?_of_trivial {p : Path} (h : p.text.toList = [] ∨ p.text.toList = ['.']) :
    p.split? = none := by
  unfold split?
  rcases h with h | h <;>
    · rw [h]
      rfl

/-! ## Extensions -/

section lastDot

variable (stem : List Char) {ext : List Char} (hext : '.' ∉ ext)
include hext

/-- From the end, what stands behind the last dot comes first. -/
theorem takeWhile_reverse_append :
    (stem ++ '.' :: ext).reverse.takeWhile (· != '.') = ext.reverse := by
  have hdots : ∀ c ∈ ext.reverse, (c != '.') = true := by
    intro c hc
    rw [bne_iff_ne]
    rintro rfl
    exact hext (List.mem_reverse.mp hc)
  rw [List.reverse_append, List.reverse_cons, List.append_assoc, List.takeWhile_append_of_pos hdots]
  exact List.append_nil _

theorem dropWhile_reverse_append :
    (stem ++ '.' :: ext).reverse.dropWhile (· != '.') = '.' :: stem.reverse := by
  have hsplit :=
    List.takeWhile_append_dropWhile (p := (· != '.')) (l := (stem ++ '.' :: ext).reverse)
  rw [takeWhile_reverse_append stem hext] at hsplit
  have hwhole : (stem ++ '.' :: ext).reverse = ext.reverse ++ '.' :: stem.reverse := by simp
  exact List.append_cancel_left (hsplit.trans hwhole)

/-- A name is cut at its last dot, unless it starts with it. -/
theorem splitName_append (hstem : stem ≠ []) :
    splitName (stem ++ '.' :: ext) = (stem, some ext) := by
  simp only [splitName, takeWhile_reverse_append stem hext, dropWhile_reverse_append stem hext]
  simp [hstem]

end lastDot

/-- The extension is what stands behind the last dot. -/
theorem eq_append_of_splitName {name ext : List Char} (h : (splitName name).2 = some ext) :
    '.' ∉ ext ∧ ∃ stem, stem ≠ [] ∧ name = stem ++ '.' :: ext := by
  simp only [splitName] at h
  split_ifs at h with hstem
  rw [Option.some.injEq] at h
  have hsplit := List.takeWhile_append_dropWhile (p := (· != '.')) (l := name.reverse)
  have hhead := List.head?_dropWhile_not (· != '.') name.reverse
  obtain ⟨c, rest, hdrop⟩ : ∃ c rest, name.reverse.dropWhile (· != '.') = c :: rest := by
    refine List.exists_cons_of_ne_nil fun hnil => ?_
    rw [hnil] at hstem
    exact hstem rfl
  rw [hdrop] at hsplit hhead hstem
  have hc : c = '.' := by simpa using hhead
  subst hc
  refine ⟨?_, rest.reverse, by simpa using hstem, ?_⟩
  · rw [← h]
    intro hmem
    simpa using List.mem_takeWhile_imp (List.mem_reverse.mp hmem)
  · calc name = (name.reverse.takeWhile (· != '.') ++ '.' :: rest).reverse := by
          rw [hsplit, List.reverse_reverse]
      _ = rest.reverse ++ '.' :: ext := by simp [h]

/-- A name has an extension if a dot stands in front of it and a stem in front of the dot. -/
theorem splitName_eq_some_iff {name ext : List Char} (hext : '.' ∉ ext) :
    (splitName name).2 = some ext ↔ ∃ stem, stem ≠ [] ∧ name = stem ++ '.' :: ext := by
  constructor
  · intro h
    exact (eq_append_of_splitName h).2
  · rintro ⟨stem, hstem, rfl⟩
    rw [splitName_append stem hext hstem]

/-- The extension of a path is that of its name. -/
theorem extension?_eq (p : Path) :
    p.extension? = p.fileName?.bind fun name => (splitName name.toList).2.map String.ofList := by
  unfold extension? fileName?
  cases p.split? with
  | none => rfl
  | some found => simp

/-- A text that ends in a dot and an extension has no other extension. -/
theorem extension?_ne_of_isSuffix {p : Path} {ext other : List Char} (hne : ext ≠ [])
    (hslash : '/' ∉ ext) (hdot : '.' ∉ ext) (hother : other ≠ ext)
    (h : '.' :: ext <:+ p.text.toList) : p.extension? ≠ some (String.ofList other) := by
  obtain ⟨front, part, hp, hfront, hpart⟩ := exists_lastPart p.text.toList
  have htail : '/' ∉ '.' :: ext := by simpa using hslash
  rw [hp] at h
  obtain ⟨stem, rfl⟩ := isSuffix_lastPart hfront htail h
  have hsplit : p.split? = some (front, stem ++ '.' :: ext) := by
    rw [split?_of_lastPart hp hfront hpart (by simp), if_neg]
    · intro hdots
      have hlast := takeWhile_reverse_append stem hdot
      rw [hdots] at hlast
      exact hne (List.reverse_eq_nil_iff.mp hlast.symm)
    · intro hone
      have hlast := takeWhile_reverse_append stem hdot
      rw [hone] at hlast
      exact hne (List.reverse_eq_nil_iff.mp hlast.symm)
  intro hext
  rw [extension?, hsplit, Option.bind_some, Option.map_eq_some_iff] at hext
  obtain ⟨found, hfound, heq⟩ := hext
  rw [String.ofList_inj] at heq
  obtain ⟨hfoundDot, stem', -, hname⟩ := eq_append_of_splitName hfound
  apply hother
  rw [← heq, ← List.reverse_inj, ← takeWhile_reverse_append stem' hfoundDot, ← hname,
    takeWhile_reverse_append stem hdot]

/-! ## Another extension -/

/-- Nothing is put behind a path of which no name is left. -/
theorem withExtension_of_none {p : Path} (h : p.dropExtension.split? = none) (ext : String) :
    p.withExtension ext = p.dropExtension := by
  unfold withExtension
  generalize p.dropExtension = kept at h
  simp only [h]

/-- The new extension stands behind the stem of what is left. -/
theorem toList_withExtension_of_some {p : Path} {parent name : List Char}
    (h : p.dropExtension.split? = some (parent, name)) (ext : String) :
    (p.withExtension ext).text.toList = parent ++ (splitName name).1 ++ '.' :: ext.toList := by
  unfold withExtension
  generalize p.dropExtension = kept at h
  simp only [h, String.toList_append, String.toList_ofList, List.append_assoc,
    List.singleton_append]

/-- Another extension is put in the place of the old one, unless `..` is left without it. -/
theorem toList_withExtension {p : Path} {front stem ext : List Char}
    (hp : p.text.toList = front ++ (stem ++ '.' :: ext)) (hfront : Opens front) (hstem : stem ≠ [])
    (hslash : '/' ∉ stem ++ '.' :: ext) (hdot : '.' ∉ ext) (hup : stem ++ '.' :: ext ≠ ['.', '.'])
    (other : String) :
    (p.withExtension other).text.toList =
      if stem = ['.'] then front ++ ['.', '.'] else front ++ stem ++ '.' :: other.toList := by
  have hextension : p.extension? = some (String.ofList ext) := by
    have hname : p.fileName? = some (String.ofList (stem ++ '.' :: ext)) := by
      rw [fileName?,
        split?_of_lastPart hp hfront hslash (by simp)
          (by simp [List.append_eq_singleton_iff, hstem]),
        if_neg hup]
      rfl
    rw [extension?_eq, hname, Option.bind_some, String.toList_ofList,
      splitName_append stem hdot hstem]
    rfl
  have hkept : p.dropExtension.text.toList = front ++ (stem ++ ['.']) := by
    rw [dropExtension, hextension, hp]
    simp
  have hslash' : '/' ∉ stem ++ ['.'] := by
    simp only [List.mem_append, List.mem_cons, not_or] at hslash
    simp [hslash.1]
  have hsplit := split?_of_lastPart hkept hfront hslash' (by simp) (by simp [hstem])
  by_cases hone : stem = ['.']
  · subst hone
    rw [List.singleton_append, if_pos rfl] at hsplit
    rw [withExtension_of_none hsplit, hkept, if_pos rfl]
    rfl
  · rw [if_neg
      (by simpa using fun h : stem ++ ['.'] = ['.'] ++ ['.'] => hone (List.append_cancel_right h))]
      at hsplit
    rw [toList_withExtension_of_some hsplit, if_neg hone,
      splitName_append stem List.not_mem_nil hstem]

/-! ## Components -/

/-- What a path is made of. -/
inductive Component where
  | root
  /-- The dot that a path may start with. -/
  | here
  | up
  | name (text : String)
  deriving DecidableEq, Repr

/-- The component that a part is. Empty parts and dots do not count. -/
def Component.ofPart? (part : String) : Option Component :=
  if part = "" || part = "." then none else if part = ".." then some .up else some (.name part)

/-- The component that a path starts with, if it says where it starts. -/
def start? (p : Path) : Option Component :=
  if p.isAbsolute then some .root else if p.parts.head? = some "." then some .here else none

/-- The components of a path. Two paths are the same if they have the same components. -/
def components (p : Path) : List Component :=
  p.start?.toList ++ p.parts.filterMap Component.ofPart?

/-- The parts of a path that is written as its last part behind some front. -/
theorem parts_append {p : Path} {front part : List Char} (hp : p.text.toList = front ++ part)
    (hfront : Opens front) (hpart : '/' ∉ part) :
    p.parts = (partsAbove front).map String.ofList ++ [String.ofList part] := by
  rw [parts, hp, splitParts_append hfront hpart, List.map_append, List.map_singleton]

/-- A part that is neither empty nor a dot leads up or to a name. -/
theorem ofPart?_of_nontrivial {part : List Char} (hne : part ≠ []) (hdot : part ≠ ['.']) :
    Component.ofPart? (String.ofList part) =
      if part = ['.', '.'] then some .up else some (.name (String.ofList part)) := by
  have hempty : String.ofList part ≠ "" := by
    rw [ne_eq, ← String.ofList_nil, String.ofList_inj]
    exact hne
  have hone : String.ofList part ≠ "." := by
    intro h
    exact hdot (by simpa using congrArg String.toList h)
  have htwo : String.ofList part = ".." ↔ part = ['.', '.'] := by
    constructor
    · intro h
      simpa using congrArg String.toList h
    · rintro rfl
      rfl
  simp [Component.ofPart?, hempty, hone, htwo]

/-- The name of a path is the last of its parts that count. -/
theorem fileName?_eq_some_iff_parts {p : Path} {name : String} :
    p.fileName? = some name ↔
      (p.parts.filterMap Component.ofPart?).getLast? = some (.name name) := by
  induction h : p.text.toList.length using Nat.strongRecOn generalizing p with
  | ind n ih =>
      obtain ⟨front, part, hp, hfront, hpart⟩ := exists_lastPart p.text.toList
      rw [parts_append hp hfront hpart, List.filterMap_append]
      by_cases htrivial : part = [] ∨ part = ['.']
      · -- such a part does not count for either side
        have hnone : [String.ofList part].filterMap Component.ofPart? = [] := by
          rcases htrivial with rfl | rfl <;> rfl
        rw [hnone, List.append_nil]
        rcases hfront with rfl | ⟨above, rfl⟩
        · rw [fileName?, split?_of_trivial (by simpa [hp] using htrivial)]
          exact ⟨nofun, nofun⟩
        · have hq := @split?_of_trailing p ⟨String.ofList above⟩ part (by simp [hp]) htrivial
          have hlt : above.length < n := by
            rw [← h, hp, List.length_append, List.length_append, List.length_singleton]
            omega
          have hrec := ih above.length hlt (p := ⟨String.ofList above⟩) (by simp)
          rw [fileName?, hq, partsAbove_concat]
          rwa [parts, String.toList_ofList] at hrec
      · rw [not_or] at htrivial
        rw [fileName?, split?_of_lastPart hp hfront hpart htrivial.1 htrivial.2,
          List.filterMap_cons, ofPart?_of_nontrivial htrivial.1 htrivial.2]
        by_cases hup : part = ['.', '.']
        · rw [if_pos hup, if_pos hup]
          simp
        · rw [if_neg hup, if_neg hup]
          simp

/-- **The name of a path is its last component.** -/
theorem fileName?_eq_some_iff {p : Path} {name : String} :
    p.fileName? = some name ↔ p.components.getLast? = some (.name name) := by
  rw [fileName?_eq_some_iff_parts, components, List.getLast?_append]
  cases hparts : (p.parts.filterMap Component.ofPart?).getLast? with
  | some last => simp
  | none =>
      refine ⟨nofun, ?_⟩
      unfold start?
      split_ifs <;> exact nofun

/-- Paths that are the same have the same extension. -/
theorem extension?_eq_of_components {p q : Path} (h : p.components = q.components) :
    p.extension? = q.extension? := by
  have hname : p.fileName? = q.fileName? := by
    refine Option.ext fun name => ?_
    rw [fileName?_eq_some_iff, fileName?_eq_some_iff, h]
  rw [extension?_eq, extension?_eq, hname]

end HackVM.Path

import Packrat.Expr
import Packrat.Proofs.Text.Lowercase

/-! Shadowing of one literal by another: whether it is found and whether the one literal does match wherever
the other does. Where case is ignored, matching compares the lower case of single characters and the search
for shadowing that of whole texts, so that the two agree but for the exceptions among characters. -/
namespace Packrat.Literal

open Text (lowerChar lowerText SameExceptions)

variable {l later : Literal} {rest : List Char}

/-- The literal matches wherever `later` does, so that in a choice `later` cannot match after it. -/
def Preempts (l later : Literal) : Prop :=
  ∀ rest, (later.matchSize? rest).isSome → (l.matchSize? rest).isSome

theorem isSome_foldedSize? {expected : List Char} :
    (foldedSize? expected rest).isSome ↔ expected.map lowerChar <+: rest.map lowerChar := by
  fun_induction foldedSize? expected rest with
  | case1 => simp
  | case2 => simp
  | case3 e expected c rest same ih =>
    rw [Option.isSome_map, ih, List.map_cons, List.map_cons, List.cons_prefix_cons]
    exact (and_iff_right same.symm).symm
  | case4 e expected c rest apart =>
    simp [List.cons_prefix_cons, Ne.symm apart]

theorem isSome_matchSize?_exact (exact : l.ignoreCase = false) :
    (l.matchSize? rest).isSome ↔ l.text.toList <+: rest := by
  simp [matchSize?, exact]

theorem isSome_matchSize?_folded (folded : l.ignoreCase) :
    (l.matchSize? rest).isSome ↔ l.text.toList.map lowerChar <+: rest.map lowerChar := by
  rw [matchSize?, if_pos folded, isSome_foldedSize?]

/-- A literal matches its own text. -/
theorem isSome_matchSize?_self (l : Literal) : (l.matchSize? l.text.toList).isSome := by
  cases ignored : l.ignoreCase with
  | false => exact (isSome_matchSize?_exact ignored).mpr (List.prefix_refl _)
  | true => exact (isSome_matchSize?_folded ignored).mpr (List.prefix_refl _)

/-- What any literal matches agrees with it up to the case of single characters. -/
theorem folded_of_isSome_matchSize? (matched : (l.matchSize? rest).isSome) :
    l.text.toList.map lowerChar <+: rest.map lowerChar := by
  cases ignored : l.ignoreCase with
  | false => exact ((isSome_matchSize?_exact ignored).mp matched).map lowerChar
  | true => exact (isSome_matchSize?_folded ignored).mp matched

theorem preempts_iff_folded (folded : l.ignoreCase) :
    l.Preempts later ↔ l.text.toList.map lowerChar <+: later.text.toList.map lowerChar := by
  constructor
  · intro preempts
    exact (isSome_matchSize?_folded folded).mp (preempts _ later.isSome_matchSize?_self)
  · intro begins rest matched
    exact (isSome_matchSize?_folded folded).mpr (begins.trans (folded_of_isSome_matchSize? matched))

theorem preempts_iff_exact (exact : l.ignoreCase = false) (exact' : later.ignoreCase = false) :
    l.Preempts later ↔ l.text.toList <+: later.text.toList := by
  constructor
  · intro preempts
    exact (isSome_matchSize?_exact exact).mp (preempts _ later.isSome_matchSize?_self)
  · intro begins rest matched
    exact (isSome_matchSize?_exact exact).mpr (begins.trans ((isSome_matchSize?_exact exact').mp matched))

theorem shadows_iff_folded (folded : l.ignoreCase) :
    l.shadows later ↔ lowerText l.text.toList <+: lowerText later.text.toList := by
  simp [shadows, folded]

theorem shadows_iff_exact (exact : l.ignoreCase = false) :
    l.shadows later ↔ later.ignoreCase = false ∧ l.text.toList <+: later.text.toList := by
  simp [shadows, exact]

/-- A literal that minds case is not said to shadow one that ignores it. -/
theorem decided_of_shadows (reported : l.shadows later) :
    l.ignoreCase ∨ later.ignoreCase = false := by
  cases ignored : l.ignoreCase with
  | false => exact .inr ((shadows_iff_exact ignored).mp reported).1
  | true => exact .inl rfl

theorem shadows_iff_preempts (decided : l.ignoreCase ∨ later.ignoreCase = false)
    (same : l.ignoreCase → SameExceptions l.text.toList later.text.toList) :
    l.shadows later ↔ l.Preempts later := by
  cases ignored : l.ignoreCase with
  | false =>
    have exact' : later.ignoreCase = false := by simpa [ignored] using decided
    rw [shadows_iff_exact ignored, preempts_iff_exact ignored exact', and_iff_right exact']
  | true =>
    rw [shadows_iff_folded ignored, preempts_iff_folded ignored, Text.lowerText_prefix_iff (same ignored)]

/-- In texts without `İ` and `Σ`, shadowing is found where it is and nowhere else. -/
theorem shadows_iff_preempts_of_plain (decided : l.ignoreCase ∨ later.ignoreCase = false)
    (plain : ∀ c ∈ l.text.toList ++ later.text.toList, c ≠ 'İ' ∧ c ≠ 'Σ') :
    l.shadows later ↔ l.Preempts later :=
  shadows_iff_preempts decided fun _ => Text.sameExceptions_of_plain plain

theorem sameExceptions_of_shadows (reported : l.shadows later) (preempts : l.Preempts later)
    (folded : l.ignoreCase) : SameExceptions l.text.toList later.text.toList :=
  Text.sameExceptions_of_prefix ((preempts_iff_folded folded).mp preempts)
    ((shadows_iff_folded folded).mp reported)

/-- A literal said to shadow another matches wherever that one does, if and only if it minds case or the two
have the same exceptions. -/
theorem preempts_iff_of_shadows (reported : l.shadows later) :
    l.Preempts later ↔ (l.ignoreCase → SameExceptions l.text.toList later.text.toList) := by
  constructor
  · exact sameExceptions_of_shadows reported
  · intro same
    exact (shadows_iff_preempts (decided_of_shadows reported) same).mp reported

/-- Both end a word in a capital sigma, and the dotted capital comes too late to matter. -/
theorem odos_preempts :
    Literal.shadows ⟨"ΟΔΟΣ", true⟩ ⟨"ΟΔΟΣ İ", false⟩ ∧ Literal.Preempts ⟨"ΟΔΟΣ", true⟩ ⟨"ΟΔΟΣ İ", false⟩ := by
  have reported : Literal.shadows ⟨"ΟΔΟΣ", true⟩ ⟨"ΟΔΟΣ İ", false⟩ := by decide +kernel
  have same : SameExceptions "ΟΔΟΣ".toList "ΟΔΟΣ İ".toList := by decide +kernel
  exact ⟨reported, (preempts_iff_of_shadows reported).mpr fun _ => same⟩

/-- The lower case of `İ` is `i` and a dot above it. -/
theorem i_shadows_dotted :
    Literal.shadows ⟨"i", true⟩ ⟨"İ", true⟩ ∧
      (Literal.matchSize? ⟨"İ", true⟩ "İ".toList).isSome ∧
      Literal.matchSize? ⟨"i", true⟩ "İ".toList = none := by decide +kernel

/-- The other exception: as the end of a word `Σ` is `ς`, and alone it is `σ`. -/
example :
    Literal.shadows ⟨"ας", true⟩ ⟨"ΑΣ", true⟩ ∧
      (Literal.matchSize? ⟨"ΑΣ", true⟩ "ΑΣ".toList).isSome ∧
      Literal.matchSize? ⟨"ας", true⟩ "ΑΣ".toList = none := by decide +kernel

/-- A literal that matches wherever another does is said to shadow it, if and only if it minds case or the
two have the same exceptions. The case that only the other ignores case is left open. -/
theorem shadows_iff_of_preempts (decided : l.ignoreCase ∨ later.ignoreCase = false)
    (preempts : l.Preempts later) :
    l.shadows later ↔ (l.ignoreCase → SameExceptions l.text.toList later.text.toList) := by
  constructor
  · intro reported
    exact sameExceptions_of_shadows reported preempts
  · intro same
    exact (shadows_iff_preempts decided same).mpr preempts

theorem sophos_shadows :
    Literal.Preempts ⟨"ΣΟΦΟΣ", true⟩ ⟨"σοφοΣ.", false⟩ ∧
      Literal.shadows ⟨"ΣΟΦΟΣ", true⟩ ⟨"σοφοΣ.", false⟩ := by
  have preempts : Literal.Preempts ⟨"ΣΟΦΟΣ", true⟩ ⟨"σοφοΣ.", false⟩ :=
    (preempts_iff_folded rfl).mpr (by decide +kernel)
  have same : SameExceptions "ΣΟΦΟΣ".toList "σοφοΣ.".toList := by decide +kernel
  exact ⟨preempts, (shadows_iff_of_preempts (.inr rfl) preempts).mpr fun _ => same⟩

/-- In the longer text the sigma does not end the word. -/
theorem inner_sigma_not_shadowed :
    Literal.Preempts ⟨"ΑΣ", true⟩ ⟨"ΑΣΑ", true⟩ ∧
      Literal.shadows ⟨"ΑΣ", true⟩ ⟨"ΑΣΑ", true⟩ = false :=
  ⟨(preempts_iff_folded rfl).mpr (by decide +kernel), by decide +kernel⟩

end Packrat.Literal

import Packrat.Proofs.CharClass.Spans

/-! Coverage of one class by another. Where it is found, it is there. Where it is there it is found, but for a
range across the surrogates in the one class when the other names what lies on their two sides apart, and for
a negated class inside one that is not negated. -/
namespace Packrat.CharClass

variable {k other inner outer : CharClass} {c : Char} {n : Nat}

section CodePoints

/-- Some range begins below the surrogates, which are code points and no characters, and ends above
them. -/
def crossesSurrogates (k : CharClass) : Bool :=
  k.ranges.any fun r => r.1.toNat < 0xD800 && 0xDFFF < r.2.toNat

theorem toNat_valid (c : Char) : c.toNat < 0xD800 ∨ (0xDFFF < c.toNat ∧ c.toNat < 0x110000) := c.valid

theorem exists_toNat_eq (valid : n < 0xD800 ∨ (0xDFFF < n ∧ n < 0x110000)) : ∃ c : Char, c.toNat = n := by
  refine ⟨Char.ofNat n, ?_⟩
  rw [Char.ofNat, dif_pos valid]
  rfl

/-- All surrogates are held, or none is. -/
theorem holds_surrogate (k : CharClass) (above : 0xD800 ≤ n) (below : n ≤ 0xDFFF) :
    Span.Holds k.spans n ↔ k.crossesSurrogates := by
  simp only [holds_spans, crossesSurrogates, List.any_eq_true, Bool.and_eq_true, decide_eq_true_eq]
  constructor
  · rintro (⟨c, -, rfl⟩ | ⟨r, member, lo, hi⟩)
    · have := toNat_valid c
      omega
    · have := toNat_valid r.1
      have := toNat_valid r.2
      exact ⟨r, member, by omega, by omega⟩
  · rintro ⟨r, member, lo, hi⟩
    exact .inr ⟨r, member, by omega, by omega⟩

/-- What is held is a character, or one of the surrogates. -/
theorem character_or_surrogate (holds : Span.Holds k.spans n) :
    (∃ c : Char, c.toNat = n) ∨ (0xD800 ≤ n ∧ n ≤ 0xDFFF) := by
  have bound : n < 0x110000 := by
    rcases k.holds_spans n |>.mp holds with ⟨c, -, rfl⟩ | ⟨r, -, -, hi⟩
    · have := toNat_valid c
      omega
    · have := toNat_valid r.2
      omega
  by_cases valid : n < 0xD800 ∨ 0xDFFF < n
  · exact .inl (exists_toNat_eq (by omega))
  · exact .inr (by omega)

end CodePoints

theorem within_spans_iff : Span.within inner.spans outer.spans ↔
    (∀ c, inner.lists c → outer.lists c) ∧ (inner.crossesSurrogates → outer.crossesSurrogates) := by
  rw [Span.within_iff inner.canonical_spans.proper outer.canonical_spans]
  constructor
  · intro included
    refine ⟨fun c listed => ?_, fun crosses => ?_⟩
    · exact (outer.holds_spans_toNat c).mp (included _ ((inner.holds_spans_toNat c).mpr listed))
    · have held := (inner.holds_surrogate (n := 0xD800) (by decide) (by decide)).mpr crosses
      exact (outer.holds_surrogate (by decide) (by decide)).mp (included _ held)
  · rintro ⟨characters, surrogates⟩ n held
    rcases character_or_surrogate held with ⟨c, rfl⟩ | ⟨above, below⟩
    · exact (outer.holds_spans_toNat c).mpr (characters c ((inner.holds_spans_toNat c).mp held))
    · exact (outer.holds_surrogate above below).mpr (surrogates ((inner.holds_surrogate above below).mp held))

theorem lists_of_crossesSurrogates (crosses : k.crossesSurrogates) : k.lists '\ud7ff' := by
  simp only [crossesSurrogates, List.any_eq_true, Bool.and_eq_true, decide_eq_true_eq] at crosses
  obtain ⟨r, member, lo, hi⟩ := crosses
  have last : '\ud7ff'.toNat = 0xD7FF := by decide
  exact (k.holds_spans_toNat _).mp ((k.holds_spans _).mpr (.inr ⟨r, member, by omega, by omega⟩))

theorem disjoint_spans_iff :
    Span.disjoint other.spans k.spans ↔ ∀ c, other.lists c → k.lists c = false := by
  rw [Span.disjoint_iff other.canonical_spans.proper k.canonical_spans.proper]
  constructor
  · intro apart c listed
    refine Bool.eq_false_iff.mpr fun listed' => ?_
    exact apart _ ((other.holds_spans_toNat c).mpr listed) ((k.holds_spans_toNat c).mpr listed')
  · intro apart n held held'
    rcases character_or_surrogate held with ⟨c, rfl⟩ | ⟨above, below⟩
    · have listed := (other.holds_spans_toNat c).mp held
      exact Bool.eq_false_iff.mp (apart c listed) ((k.holds_spans_toNat c).mp held')
    · have listed := lists_of_crossesSurrogates ((other.holds_surrogate above below).mp held)
      have listed' := lists_of_crossesSurrogates ((k.holds_surrogate above below).mp held')
      exact Bool.eq_false_iff.mp (apart _ listed) listed'

/-- What it means that coverage is found. -/
theorem covers_iff : k.covers other ↔
    (k.negated ∨ other.negated = false) ∧ (∀ c, other.contains c → k.contains c) ∧
      (k.negated = false → other.crossesSurrogates → k.crossesSurrogates) ∧
      (other.negated → k.crossesSurrogates → other.crossesSurrogates) := by
  cases negated : k.negated <;> cases negated' : other.negated
  · simp [covers, contains, negated, negated', within_spans_iff]
  · simp [covers, negated, negated']
  · simp [covers, contains, negated, negated', disjoint_spans_iff]
  · have turned : (∀ c, k.lists c → other.lists c) ↔ ∀ c, other.contains c → k.contains c := by
      refine forall_congr' fun c => ?_
      cases listed : k.lists c <;> cases listed' : other.lists c <;>
        simp [contains, negated, negated', listed, listed']
    simp [covers, negated, negated', within_spans_iff, turned]

/-- A class that is found to cover another has each of its characters. -/
theorem covers_sound (covered : k.covers other) (member : other.contains c) : k.contains c :=
  (covers_iff.mp covered).2.1 c member

/-- All but the digits, of which the second range runs backwards and the last two overlap. -/
def nonDigits : CharClass :=
  negate (empty.addRange '5' '9' |>.addRange 'z' 'a' |>.addRange '0' '4' |>.addRange '3' '6')

def nonWord : CharClass :=
  negate (empty.addRange 'a' 'z' |>.addChars "_" |>.addRange '0' '9' |>.withLabel "space")

theorem nonDigits_covers_nonWord :
    nonDigits.covers nonWord ∧ nonWord.contains '-' ∧ nonDigits.contains '-' := by
  have covered : nonDigits.covers nonWord := by
    simp +decide [nonDigits, nonWord, empty, addChars, addRange, negate, withLabel, covers, spans, listed,
      List.mergeSort]
  have member : nonWord.contains '-' := by decide
  exact ⟨covered, member, covers_sound covered member⟩

/-- A class that has each character of another is found to cover it, unless there is a range across the
surrogates in the list that has to lie inside the other list, and none in that one. Of negated classes, only
coverage by negated ones is looked for. -/
theorem covers_iff_crossesSurrogates (decided : k.negated ∨ other.negated = false)
    (all : ∀ c, other.contains c → k.contains c) :
    k.covers other ↔
      (k.negated = false → other.crossesSurrogates → k.crossesSurrogates) ∧
        (other.negated → k.crossesSurrogates → other.crossesSurrogates) := by
  rw [covers_iff]
  exact ⟨fun covered => covered.2.2, fun crossings => ⟨decided, all, crossings⟩⟩

def bridge : CharClass := empty.addRange '\ud7ff' '\ue000'

theorem contains_bridge : bridge.contains c ↔ c = '\ud7ff' ∨ c = '\ue000' := by
  constructor
  · intro member
    obtain ⟨lo, hi⟩ : '\ud7ff' ≤ c ∧ c ≤ '\ue000' := by
      simpa [bridge, contains, lists, addRange, empty] using member
    have lo : 0xD7FF ≤ c.toNat := lo
    have hi : c.toNat ≤ 0xE000 := hi
    have valid := toNat_valid c
    rcases (by omega : c.toNat = 0xD7FF ∨ c.toNat = 0xE000) with low | high
    · exact .inl (Char.toNat_inj.mp low)
    · exact .inr (Char.toNat_inj.mp high)
  · rintro (rfl | rfl) <;> decide

def nonAscii : CharClass := empty.addRange '\u0080' '\ud000' |>.addRange '\uc000' '\uffff'

theorem nonAscii_covers_bridge :
    (nonAscii.negated ∨ bridge.negated = false) ∧
    (∀ c, bridge.contains c → nonAscii.contains c) ∧ nonAscii.covers bridge := by
  have all : ∀ c, bridge.contains c → nonAscii.contains c := by
    intro c member
    rcases contains_bridge.mp member with rfl | rfl <;> decide
  have crossings : (nonAscii.negated = false → bridge.crossesSurrogates → nonAscii.crossesSurrogates) ∧
      (bridge.negated → nonAscii.crossesSurrogates → bridge.crossesSurrogates) := by decide
  exact ⟨.inr rfl, all, (covers_iff_crossesSurrogates (.inr rfl) all).mpr crossings⟩

/-- Listed one by one, the same two characters are two spans, since the surrogates count as code points
between them. -/
theorem bridge_not_covered :
    let ends := empty.addChars "\ud7ff\ue000"
    (ends.negated ∨ bridge.negated = false) ∧
      (∀ c, bridge.contains c → ends.contains c) ∧ ends.covers bridge = false := by
  refine ⟨.inr rfl, fun c member => ?_, ?_⟩
  · rcases contains_bridge.mp member with rfl | rfl <;> decide
  · simp +decide [bridge, empty, addChars, addRange, covers, spans, listed, List.mergeSort]

end Packrat.CharClass

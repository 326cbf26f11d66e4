import Packrat.Proofs.Misses

/-! How a record of failures grows. The furthest place only moves forward. While it stays, labels are only added,
each once. A record forgets most of what is marked in it, yet it stands for all of it: it makes no difference how
failures are grouped before they are absorbed, nor whether they are absorbed again. -/
namespace Packrat

namespace Failures

variable {f own : Failures} {pos : Position}

/-- No label stands twice, and there are labels if and only if there is a furthest place. -/
structure Sound (f : Failures) : Prop where
  distinct : f.expected.Nodup
  labelled : f.expected = [] ↔ f.furthest = none

theorem sound_empty : empty.Sound := ⟨.nil, by simp [empty]⟩

theorem prefix_addLabel (labels : List String) (label : String) : labels <+: addLabel labels label := by
  unfold addLabel
  split
  · exact List.prefix_refl _
  · exact List.prefix_append ..

theorem prefix_foldl_addLabel (known labels : List String) : known <+: labels.foldl addLabel known := by
  induction labels generalizing known with
  | nil => exact List.prefix_refl _
  | cons label labels ih => exact (prefix_addLabel known label).trans (ih _)

theorem nodup_addLabel {labels : List String} (distinct : labels.Nodup) (label : String) :
    (addLabel labels label).Nodup := by
  unfold addLabel
  split
  · exact distinct
  · rename_i fresh
    have apart : label ∉ labels := by simpa using fresh
    exact List.nodup_append.mpr ⟨distinct, by simp, by
      rintro a member b only rfl
      exact apart (List.mem_singleton.mp only ▸ member)⟩

theorem addLabel_ne_nil (labels : List String) (label : String) : addLabel labels label ≠ [] := by
  have known : label ∈ [label].foldl addLabel labels := mem_foldl_addLabel.mpr (.inr (by simp))
  exact List.ne_nil_of_mem known

theorem Sound.mark (sound : f.Sound) (pos : Position) (label : String) : (f.mark pos label).Sound := by
  rcases f.standing pos with suppressed | ⟨far, furthest, before⟩ | ⟨recording, far, furthest, there⟩ |
    ⟨recording, beyond⟩
  · rwa [mark_of_suppressed suppressed]
  · rwa [mark_before furthest before]
  · rw [mark_at recording furthest there]
    exact ⟨nodup_addLabel sound.distinct label, by simp [addLabel_ne_nil, furthest]⟩
  · rw [mark_beyond recording beyond]
    exact ⟨by simp, by simp⟩

theorem Sound.marks (sound : f.Sound) (misses : List Miss) : (f.marks misses).Sound := by
  induction misses generalizing f with
  | nil => exact sound
  | cons m misses ih => exact ih (sound.mark m.place m.label)

theorem Sound.suppress (sound : f.Sound) : f.suppress.Sound := ⟨sound.distinct, sound.labelled⟩

theorem Sound.release (sound : f.Sound) : f.release.Sound := ⟨sound.distinct, sound.labelled⟩

def misses (f : Failures) : List Miss :=
  f.furthest.elim [] fun far => f.expected.map fun label => ⟨far, label⟩

theorem absorb_eq_marks (f own : Failures) : f.absorb own = f.marks own.misses := by
  unfold absorb misses
  cases own.furthest with
  | none => rfl
  | some far => simp [marks, List.foldl_map]

theorem suppressed_marks (f : Failures) (misses : List Miss) :
    (f.marks misses).suppressed = f.suppressed := by
  induction misses generalizing f with
  | nil => rfl
  | cons m misses ih => exact (ih _).trans (suppressed_mark f m.place m.label)

/-- A sound record that is not suppressed can take failures before or after it is absorbed. -/
theorem absorb_marks (sound : own.Sound) (recording : own.suppressed = 0) (f : Failures)
    (misses : List Miss) : (f.absorb own).marks misses = f.absorb (own.marks misses) := by
  induction misses generalizing own with
  | nil => rfl
  | cons m misses ih =>
    have labelled : own.furthest.isSome → own.expected ≠ [] := fun reached none => by
      simp [sound.labelled.mp none] at reached
    rw [marks_cons, absorb_mark f labelled recording, marks_cons]
    exact ih (sound.mark m.place m.label) ((suppressed_mark ..).trans recording)

/-- Failures collected apart and absorbed are recorded as if each had been marked in place. -/
theorem absorb_marks_empty (f : Failures) (misses : List Miss) :
    f.absorb (empty.marks misses) = f.marks misses :=
  (absorb_marks sound_empty rfl f misses).symm

/-- The labels of a sound record are taken over one by one. -/
theorem foldl_addLabel_nil {labels : List String} (distinct : labels.Nodup) :
    labels.foldl addLabel [] = labels := by
  induction labels using List.reverseRecOn with
  | nil => rfl
  | append_singleton labels label ih =>
    obtain ⟨distinct, -, apart⟩ := List.nodup_append.mp distinct
    have fresh : label ∉ labels := fun member => apart label member label (by simp) rfl
    rw [List.foldl_append, ih distinct]
    simp [addLabel, fresh]

/-- What becomes of the record `before` by failures of which `own` is the record and none is before
`pos`. -/
structure Advances (pos : Position) (before own after : Failures) : Prop where
  merged : after = before.absorb own
  suppressed : after.suppressed = before.suppressed
  forward : ∀ far, before.furthest = some far →
    ∃ far', after.furthest = some far' ∧ far.offset ≤ far'.offset
  level : after.furthest.map Position.offset = before.furthest.map Position.offset →
    before.expected <+: after.expected
  beyond : ∀ far', after.furthest = some far' →
    (∀ far, before.furthest = some far → far.offset < far'.offset) →
    pos.offset ≤ far'.offset ∧ own.furthest = some far' ∧ after.expected = own.expected

/-- A record to which nothing is added. -/
theorem advances_of_absorb_eq (same : f.absorb own = f) : Advances pos f own f where
  merged := same.symm
  suppressed := rfl
  forward far furthest := ⟨far, furthest, le_rfl⟩
  level _ := List.prefix_refl _
  beyond far' furthest later := absurd (later far' furthest) (lt_irrefl _)

theorem advances_absorb (f : Failures) (sound : own.Sound)
    (onward : ∀ far, own.furthest = some far → pos.offset ≤ far.offset) :
    Advances pos f own (f.absorb own) := by
  cases furthest : own.furthest with
  | none =>
    have same : f.absorb own = f := by simp [absorb, furthest]
    rw [same]
    exact advances_of_absorb_eq same
  | some far =>
    have merged := absorb_of_furthest furthest f
    have labelled : own.expected ≠ [] := fun none => by simp [sound.labelled.mp none] at furthest
    rcases f.standing far with suppressed | ⟨reach, reached, before⟩ |
      ⟨recording, reach, reached, there⟩ | ⟨recording, later⟩
    · rw [markAll_of_suppressed suppressed] at merged
      rw [merged]
      exact advances_of_absorb_eq merged
    · rw [markAll_before reached before] at merged
      rw [merged]
      exact advances_of_absorb_eq merged
    · rw [markAll_at recording reached there] at merged
      rw [merged]
      exact {
        merged := merged.symm
        suppressed := rfl
        forward := fun far' furthest' => ⟨far', furthest', le_rfl⟩
        level := fun _ => prefix_foldl_addLabel ..
        beyond := fun far' furthest' later => absurd (later far' furthest') (lt_irrefl _) }
    · rw [markAll_beyond recording later labelled] at merged
      rw [merged]
      refine {
        merged := merged.symm
        suppressed := recording.symm
        forward := fun reach reached => ⟨far, rfl, (later reach reached).le⟩
        level := fun same => ?_
        beyond := fun far' furthest' _ => ?_ }
      · obtain ⟨reach, reached, level⟩ := Option.map_eq_some_iff.mp same.symm
        exact absurd level (later reach reached).ne
      · obtain rfl : far = far' := Option.some.inj furthest'
        exact ⟨onward far furthest, furthest, foldl_addLabel_nil sound.distinct⟩

section Known

variable {m : Miss}

/-- To record the failure would change nothing. -/
def Knows (f : Failures) (m : Miss) : Prop := f.mark m.place m.label = f

theorem addLabel_eq_self_iff {labels : List String} {label : String} :
    addLabel labels label = labels ↔ label ∈ labels := by
  unfold addLabel
  split <;> simp_all

/-- What a record knows lies before its furthest place, or at it with its label. -/
theorem knows_iff : f.Knows m ↔ 0 < f.suppressed ∨ ∃ far, f.furthest = some far ∧
    (m.place.offset < far.offset ∨ m.place.offset = far.offset ∧ m.label ∈ f.expected) := by
  unfold Knows
  rcases f.standing m.place with suppressed | ⟨far, furthest, before⟩ |
    ⟨recording, far, furthest, there⟩ | ⟨recording, beyond⟩
  · simp [mark_of_suppressed suppressed, suppressed]
  · simp [mark_before furthest before, furthest, before]
  · have known : { f with expected := addLabel f.expected m.label } = f ↔ m.label ∈ f.expected := by
      rw [← addLabel_eq_self_iff]
      exact ⟨congrArg expected, fun same => by rw [same]⟩
    rw [mark_at recording furthest there, known]
    simp [recording, furthest, there]
  · rw [mark_beyond recording beyond]
    constructor
    · intro same
      exact absurd (beyond m.place (same ▸ rfl)) (lt_irrefl _)
    · rintro (suppressed | ⟨far, furthest, le⟩)
      · omega
      · have := beyond far furthest
        omega

theorem knows_mark (f : Failures) (m : Miss) : (f.mark m.place m.label).Knows m :=
  f.mark_of_mem_markAll m.place (List.mem_singleton_self m.label)

theorem Knows.mark (known : f.Knows m) (pos : Position) (label : String) :
    (f.mark pos label).Knows m := by
  rcases f.standing pos with suppressed | ⟨far, furthest, before⟩ | ⟨recording, far, furthest, there⟩ |
    ⟨recording, beyond⟩
  · rwa [mark_of_suppressed suppressed]
  · rwa [mark_before furthest before]
  · rw [mark_at recording furthest there]
    rw [knows_iff] at known ⊢
    refine known.imp_right fun ⟨far, furthest, le⟩ => ⟨far, furthest, le.imp_right fun here => ?_⟩
    exact ⟨here.1, (prefix_addLabel _ _).subset here.2⟩
  · rw [mark_beyond recording beyond]
    rcases knows_iff.mp known with suppressed | ⟨far, furthest, le⟩
    · omega
    · have := beyond far furthest
      exact knows_iff.mpr (.inr ⟨pos, rfl, .inl (by omega)⟩)

theorem Knows.marks (known : f.Knows m) (misses : List Miss) : (f.marks misses).Knows m := by
  induction misses generalizing f with
  | nil => exact known
  | cons m' misses ih => exact ih (known.mark m'.place m'.label)

theorem knows_marks (f : Failures) {misses : List Miss} (member : m ∈ misses) :
    (f.marks misses).Knows m := by
  induction misses generalizing f with
  | nil => cases member
  | cons m' misses ih =>
    rcases List.mem_cons.mp member with rfl | member
    · exact (f.knows_mark m).marks misses
    · exact ih (f.mark m'.place m'.label) member

theorem marks_of_known {misses : List Miss} (known : ∀ m ∈ misses, f.Knows m) :
    f.marks misses = f := by
  induction misses with
  | nil => rfl
  | cons m misses ih =>
    obtain ⟨here, later⟩ := List.forall_mem_cons.mp known
    have same : f.mark m.place m.label = f := here
    rw [marks_cons, same, ih later]

/-- Failures that occur again, after whatever else, add nothing. -/
theorem marks_again (f : Failures) (misses others : List Miss) :
    ((f.marks misses).marks others).marks misses = (f.marks misses).marks others :=
  marks_of_known fun _ member => (f.knows_marks member).marks others

end Known

end Failures

namespace Miss

/-- Of the failures at the furthest place, one occurs first. -/
theorem exists_first {misses : List Miss} (occurred : misses ≠ []) :
    ∃ before m after, misses = before ++ m :: after ∧
      (∀ x ∈ before, x.place.offset < m.place.offset) ∧
      (∀ x ∈ after, x.place.offset ≤ m.place.offset) ∧ furthest? misses = some m.place := by
  induction misses using List.reverseRecOn with
  | nil => exact absurd rfl occurred
  | append_singleton misses last ih =>
    rcases eq_or_ne misses [] with rfl | earlier
    · exact ⟨[], last, [], rfl, by simp, by simp, rfl⟩
    obtain ⟨before, m, after, split, lt, le, furthest⟩ := ih earlier
    rcases lt_or_ge m.place.offset last.place.offset with beyond | within
    · refine ⟨misses, last, [], rfl, fun x member => ?_, by simp, ?_⟩
      · exact (le_furthest furthest member).trans_lt beyond
      · rw [furthest?_concat, furthest, Option.elim_some, if_pos beyond]
    · refine ⟨before, m, after ++ [last], by simp [split], lt, ?_, ?_⟩
      · simpa [or_imp, forall_and] using ⟨le, within⟩
      · rw [furthest?_concat, furthest, Option.elim_some, if_neg within.not_gt]

end Miss

namespace Failures

variable {f own : Failures}

/-- The record comes about by marking failures, absorbing records, and opening and closing lookaheads. -/
inductive Arises : Failures → Prop where
  | empty : Arises .empty
  | mark {f : Failures} (pos : Position) (label : String) : Arises f → Arises (f.mark pos label)
  | absorb {f own : Failures} : Arises f → Arises own → Arises (f.absorb own)
  | suppress {f : Failures} : Arises f → Arises f.suppress
  | release {f : Failures} : 0 < f.suppressed → Arises f → Arises f.release

theorem Arises.sound (arises : f.Arises) : f.Sound := by
  induction arises with
  | empty => exact sound_empty
  | mark pos label _ ih => exact ih.mark pos label
  | absorb _ _ ih =>
    rw [absorb_eq_marks]
    exact ih.marks _
  | suppress _ ih => exact ih.suppress
  | release _ _ ih => exact ih.release

theorem absorb_absorb (sound : own.Sound) (recording : own.suppressed = 0) (f others : Failures) :
    (f.absorb own).absorb others = f.absorb (own.absorb others) := by
  rw [absorb_eq_marks _ others, absorb_eq_marks own others]
  exact absorb_marks sound recording f others.misses

/-- What has been absorbed is known, whatever is marked after it. -/
theorem absorb_again (f own : Failures) (misses : List Miss) :
    ((f.absorb own).marks misses).absorb own = (f.absorb own).marks misses := by
  simp only [absorb_eq_marks _ own]
  exact f.marks_again own.misses misses

/-- A fresh record holds the first of the failures at the greatest offset, and the labels that failed at
that offset. -/
theorem marks_fresh (misses : List Miss) : misses = [] ∧ empty.marks misses = empty ∨
    ∃ before m after, misses = before ++ m :: after ∧
      (∀ x ∈ before, x.place.offset < m.place.offset) ∧
      (∀ x ∈ after, x.place.offset ≤ m.place.offset) ∧
      empty.marks misses = ⟨some m.place, Miss.labelsAt misses m.place.offset, 0⟩ := by
  rcases eq_or_ne misses [] with rfl | occurred
  · exact .inl ⟨rfl, rfl⟩
  · obtain ⟨before, m, after, split, lt, le, furthest⟩ := Miss.exists_first occurred
    refine .inr ⟨before, m, after, split, lt, le, ?_⟩
    rw [marks_empty, Miss.labels, furthest]
    rfl

/-- To absorb what is marked in a fresh record is to mark it in place, whatever record absorbs it and
however many lookaheads are open around it. The fresh record holds the first of the furthest failures,
with the labels at its offset. So records can be absorbed in any grouping, if the one in the middle is not
suppressed, and to absorb a record again, after whatever further failures, changes nothing. -/
theorem collecting_apart (f : Failures) (misses : List Miss) :
    f.absorb (empty.marks misses) = f.marks misses ∧
    (misses = [] ∧ empty.marks misses = empty ∨
      ∃ before m after, misses = before ++ m :: after ∧
        (∀ x ∈ before, x.place.offset < m.place.offset) ∧
        (∀ x ∈ after, x.place.offset ≤ m.place.offset) ∧
        empty.marks misses = ⟨some m.place, Miss.labelsAt misses m.place.offset, 0⟩) ∧
    ∀ own : Failures, own.Arises → own.suppressed = 0 →
      (∀ others, (f.absorb own).absorb others = f.absorb (own.absorb others)) ∧
      ∀ further, ((f.absorb own).marks further).absorb own = (f.absorb own).marks further := by
  refine ⟨f.absorb_marks_empty misses, marks_fresh misses, fun own arises recording => ⟨?_, ?_⟩⟩
  · exact absorb_absorb arises.sound recording f
  · exact f.absorb_again own

/-- A sign, digits and a point, each of which has failed on the way, one of them in a lookahead. -/
theorem signs_collected :
    let place (column : Nat) : Position := ⟨column - 1, 1, column⟩
    let f := empty.mark (place 3) "digit"
    let misses : List Miss :=
      [⟨place 1, "sign"⟩, ⟨place 3, "point"⟩, ⟨place 2, "digit"⟩, ⟨place 3, "digit"⟩]
    let own := ((empty.mark (place 3) "point").suppress.mark (place 4) "exponent").release
    let others := empty.mark (place 2) "sign"
    f.absorb (empty.marks misses) = f.marks misses ∧
      f.marks misses = ⟨some (place 3), ["digit", "point"], 0⟩ ∧
      own.Arises ∧ own.suppressed = 0 ∧
      (f.absorb own).absorb others = f.absorb (own.absorb others) ∧
      ((f.absorb own).marks misses).absorb own = (f.absorb own).marks misses := by
  intro place f misses own others
  obtain ⟨collected, -, grouped⟩ := collecting_apart f misses
  have arises : own.Arises :=
    .release (by decide) (.mark (place 4) "exponent" (.suppress (.mark (place 3) "point" .empty)))
  obtain ⟨grouped, again⟩ := grouped own arises rfl
  exact ⟨collected, by decide, arises, rfl, grouped others, again misses⟩

end Failures

end Packrat

import Packrat.Fold

/-! The fold along operators and operands, told by the places of the matches: operands stand at even
places, operators between them, and from one operand to the next the value accumulates from the left. -/
namespace Packrat.Fold

variable {V : Type} {apply : V → String → V → Option V} {ms : List (Match V)}

/-- The value after `n` steps: that of the first match, and then what `apply` makes of the value before
with the operator and the operand that follow. -/
def accumulation? (apply : V → String → V → Option V) (ms : List (Match V)) : Nat → Option V
  | 0 => ms[0]?.map Match.value
  | n + 1 => do
    let acc ← accumulation? apply ms n
    let token ← ms[2 * n + 1]?
    let operand ← ms[2 * n + 2]?
    apply acc (operator token) operand.value

structure Resumes (apply : V → String → V → Option V) (ms : List (Match V)) (n : Nat) (acc : V)
    (token operand : Match V) : Prop where
  reached : accumulation? apply ms n = some acc
  token : ms[2 * n + 1]? = some token
  operand : ms[2 * n + 2]? = some operand

def StopsAt (apply : V → String → V → Option V) (ms : List (Match V)) (n : Nat) (token : Match V) :
    Prop :=
  ∃ acc operand, Resumes apply ms n acc token operand ∧ apply acc (operator token) operand.value = none

section Steps

variable {n : Nat} {acc acc' : V} {token operand head : Match V} {tail : List (Match V)}

theorem accumulation?_succ_eq_some : accumulation? apply ms (n + 1) = some acc' ↔
    ∃ acc token operand, Resumes apply ms n acc token operand ∧
      apply acc (operator token) operand.value = some acc' := by
  simp only [accumulation?, Option.bind_eq_bind, Option.bind_eq_some_iff]
  constructor
  · rintro ⟨acc, reached, token, here, operand, there, applied⟩
    exact ⟨acc, token, operand, ⟨reached, here, there⟩, applied⟩
  · rintro ⟨acc, token, operand, ⟨reached, here, there⟩, applied⟩
    exact ⟨acc, reached, token, here, operand, there, applied⟩

theorem drop_of_getElem?_eq_some {α : Type} {l : List α} {i : Nat} {x : α} (here : l[i]? = some x) :
    l.drop i = x :: l.drop (i + 1) := by
  obtain ⟨inside, rfl⟩ := List.getElem?_eq_some_iff.mp here
  exact List.drop_eq_getElem_cons inside

theorem Resumes.drop (resumes : Resumes apply ms n acc token operand) :
    ms.drop (2 * n + 1) = token :: operand :: ms.drop (2 * (n + 1) + 1) := by
  rw [drop_of_getElem?_eq_some resumes.token, drop_of_getElem?_eq_some resumes.operand]
  rfl

/-- After any number of steps, what is left to do is to go on from the value there is. -/
theorem accumulate_eq (reached : accumulation? apply (head :: tail) n = some acc) :
    accumulate apply head.value tail = accumulate apply acc ((head :: tail).drop (2 * n + 1)) := by
  induction n generalizing acc with
  | zero =>
    cases reached
    rfl
  | succ n ih =>
    obtain ⟨before, token, operand, resumes, applied⟩ := accumulation?_succ_eq_some.mp reached
    rw [ih resumes.reached, resumes.drop, accumulate, applied]

/-- Either all the steps to a place can be made, or there is one at which the operator is not known. -/
theorem accumulates_or_stops (apply : V → String → V → Option V) (inside : 2 * n < ms.length) :
    (∃ acc, accumulation? apply ms n = some acc) ∨ ∃ i < n, ∃ token, StopsAt apply ms i token := by
  induction n with
  | zero => exact .inl ⟨ms[0].value, by simp [accumulation?, inside]⟩
  | succ n ih =>
    rcases ih (by omega) with ⟨acc, reached⟩ | ⟨i, before, stops⟩
    · have resumes : Resumes apply ms n acc ms[2 * n + 1] ms[2 * n + 2] :=
        ⟨reached, List.getElem?_eq_getElem (by omega), List.getElem?_eq_getElem (by omega)⟩
      cases applied : apply acc (operator ms[2 * n + 1]) ms[2 * n + 2].value with
      | some acc' => exact .inl ⟨acc', accumulation?_succ_eq_some.mpr ⟨_, _, _, resumes, applied⟩⟩
      | none => exact .inr ⟨n, by omega, _, _, _, resumes, applied⟩
    · exact .inr ⟨i, by omega, stops⟩

end Steps

section Binary

variable {n : Nat} {acc : V} {token last head : Match V} {tail : List (Match V)}

theorem binary_odd (even : tail.length % 2 = 0) :
    binary apply (head :: tail) = accumulate apply head.value tail := by
  rw [binary, if_neg (by omega)]

theorem binary_even (even : ms.length % 2 = 0) (ends : ms.getLast? = some last) :
    binary apply ms =
      .error (.inconsistent s!"operator '{operator last}' without an operand") := by
  cases ms with
  | nil => cases ends
  | cons head tail =>
    have odd : tail.length % 2 = 1 := by
      rw [List.length_cons] at even
      omega
    obtain ⟨token, tail, rfl⟩ := List.exists_cons_of_length_pos (show 0 < tail.length by omega)
    rw [List.getLast?_cons_cons] at ends
    rw [binary, if_pos odd, ends]

/-- Where the accumulation ends with the matches, it is the value of the fold. -/
theorem binary_of_accumulation (odd : ms.length = 2 * n + 1)
    (reached : accumulation? apply ms n = some acc) : binary apply ms = .ok acc := by
  cases ms with
  | nil => cases odd
  | cons head tail =>
    have even : tail.length = 2 * n := Nat.succ.inj odd
    have ended : (head :: tail).drop (2 * n + 1) = [] := List.drop_eq_nil_iff.mpr (Nat.le_of_eq odd)
    rw [binary_odd (by omega), accumulate_eq reached, ended, accumulate]
    nofun

theorem binary_of_stopsAt (odd : ms.length % 2 = 1) (stops : StopsAt apply ms n token) :
    binary apply ms = .error (.inconsistent s!"unexpected operator '{operator token}'") := by
  obtain ⟨acc, operand, resumes, unknown⟩ := stops
  cases ms with
  | nil => cases odd
  | cons head tail =>
    have even : tail.length % 2 = 0 := by
      rw [List.length_cons] at odd
      omega
    rw [binary_odd even, accumulate_eq resumes.reached, resumes.drop, accumulate, unknown]

/-- If the accumulation does not get to the last match, the fold ends at an operator before it. -/
theorem binary_of_none (odd : ms.length = 2 * n + 1) (missing : accumulation? apply ms n = none) :
    ∃ i < n, ∃ token, StopsAt apply ms i token ∧
      binary apply ms = .error (.inconsistent s!"unexpected operator '{operator token}'") := by
  rcases accumulates_or_stops apply (show 2 * n < ms.length by omega) with
    ⟨acc, reached⟩ | ⟨i, before, token, stops⟩
  · cases missing.symm.trans reached
  · exact ⟨i, before, token, stops, binary_of_stopsAt (by omega) stops⟩

theorem accumulation_of_binary (ok : binary apply ms = .ok acc) :
    ∃ n, ms.length = 2 * n + 1 ∧ accumulation? apply ms n = some acc := by
  obtain ⟨n, even | odd⟩ : ∃ n, ms.length = 2 * n ∨ ms.length = 2 * n + 1 :=
    ⟨ms.length / 2, by omega⟩
  · cases ends : ms.getLast? with
    | none =>
      obtain rfl := List.getLast?_eq_none_iff.mp ends
      cases ok
    | some last => cases (binary_even (by omega) ends).symm.trans ok
  · cases reached : accumulation? apply ms n with
    | none =>
      obtain ⟨_, _, _, _, refused⟩ := binary_of_none odd reached
      cases refused.symm.trans ok
    | some acc' =>
      cases (binary_of_accumulation odd reached).symm.trans ok
      exact ⟨n, odd, reached⟩

end Binary

/-- The fold has a value exactly for an odd number of matches along which all steps can be made, and then
it is the value after the last. Without matches there is no operand. If their number is even, the last is
an operator without an operand, whatever `apply` would make of those before. Otherwise the fold ends at
the first operator that `apply` does not know. -/
theorem binary_accumulates (apply : V → String → V → Option V) (ms : List (Match V)) :
    (∀ v, binary apply ms = .ok v ↔
      ∃ n, ms.length = 2 * n + 1 ∧ accumulation? apply ms n = some v) ∧
    binary apply [] = .error (.inconsistent "no operand to fold") ∧
    (∀ last, ms.getLast? = some last → ms.length % 2 = 0 → ∀ apply', binary apply' ms =
      .error (.inconsistent s!"operator '{operator last}' without an operand")) ∧
    ∀ n, ms.length = 2 * n + 1 → accumulation? apply ms n = none →
      ∃ i < n, ∃ token, StopsAt apply ms i token ∧
        binary apply ms = .error (.inconsistent s!"unexpected operator '{operator token}'") := by
  refine ⟨fun v => ⟨accumulation_of_binary, ?_⟩, rfl, ?_, fun n => binary_of_none⟩
  · rintro ⟨n, odd, reached⟩
    exact binary_of_accumulation odd reached
  · exact fun last ends even apply' => binary_even even ends

/-- Only differences can be taken, and they are taken from the left. -/
theorem binary_subtracts :
    let apply (a : Int) (op : String) (b : Int) := if op = "-" then some (a - b) else none
    let m (text : String) (value : Int) : Match Int := ⟨text.toList, value, Position.start⟩
    let unknown := [m "8" 8, m "-" 0, m "3" 3, m " *" 0, m "1" 1]
    binary apply [m "8" 8, m "-" 0, m "3" 3, m "- " 0, m "1" 1] = .ok 4 ∧
      binary apply [m "8" 8, m "*" 0, m "3" 3, m "- " 0] =
        .error (.inconsistent "operator '-' without an operand") ∧
      ∃ i < 2, ∃ token, StopsAt apply unknown i token ∧
        binary apply unknown =
          .error (.inconsistent s!"unexpected operator '{operator token}'") := by
  intro apply m unknown
  obtain ⟨valued, -⟩ := binary_accumulates apply [m "8" 8, m "-" 0, m "3" 3, m "- " 0, m "1" 1]
  obtain ⟨-, -, dangling, -⟩ := binary_accumulates apply [m "8" 8, m "*" 0, m "3" 3, m "- " 0]
  obtain ⟨-, -, -, stuck⟩ := binary_accumulates apply unknown
  exact ⟨(valued 4).mpr ⟨2, rfl, by decide +kernel⟩, dangling (m "- " 0) rfl (by decide) apply,
    stuck 2 rfl (by decide +kernel)⟩

end Packrat.Fold

import Opencore.Machine.Bytes

/-! A text read by `fgets` into a buffer of fixed size. -/
namespace Opencore.Machine

/-- At most `n` characters of the text, up to a newline, and what is left of it. -/
def takeLine : ℕ → Bytes → Bytes × Bytes
  | 0, bs => ([], bs)
  | _ + 1, [] => ([], [])
  | n + 1, b :: bs =>
    if b = 10 then ([b], bs)
    else (b :: (takeLine n bs).1, (takeLine n bs).2)

/-- One `fgets(line, size, fp)`; it leaves room for the NUL and fails at the end of the file. -/
def fgets (size : ℕ) (bs : Bytes) : Option (Bytes × Bytes) :=
  if bs = [] then none else some (takeLine (size - 1) bs)

/-- `while (fgets(line, size, fp))`, for a number of turns. -/
def fgetsLoop (size : ℕ) : ℕ → Bytes → List Bytes
  | 0, _ => []
  | turns + 1, bs =>
    match fgets size bs with
    | none => []
    | some (line, rest) => line :: fgetsLoop size turns rest

/-- What the loop reads of a text; every turn takes a character. -/
def readLines (size : ℕ) (bs : Bytes) : List Bytes := fgetsLoop size bs.length bs

def IsLine (bs : Bytes) : Prop := ∃ body, bs = body ++ [10] ∧ 10 ∉ body

theorem takeLine_length (n : ℕ) (bs : Bytes) : (takeLine n bs).1.length ≤ n := by
  induction n generalizing bs with
  | zero => exact le_refl 0
  | succ n ih =>
    cases bs with
    | nil => exact Nat.zero_le _
    | cons b bs =>
      rw [takeLine]
      split_ifs
      · exact Nat.le_add_left 1 n
      · exact Nat.succ_le_succ (ih bs)

theorem takeLine_short {n : ℕ} {body : Bytes} (hbody : 10 ∉ body) (hn : body.length < n)
    (rest : Bytes) : takeLine n (body ++ 10 :: rest) = (body ++ [10], rest) := by
  induction body generalizing n with
  | nil =>
    obtain ⟨n, rfl⟩ : ∃ m, n = m + 1 := ⟨n - 1, by simp at hn; omega⟩
    rw [List.nil_append, takeLine, if_pos rfl]
    rfl
  | cons b body ih =>
    obtain ⟨n, rfl⟩ : ∃ m, n = m + 1 := ⟨n - 1, by omega⟩
    obtain ⟨hb, hbody⟩ := not_or.mp (mt List.mem_cons.mpr hbody)
    have hrest := ih hbody (Nat.lt_of_succ_lt_succ hn)
    rw [List.cons_append, takeLine, if_neg (Ne.symm hb), hrest]
    rfl

theorem takeLine_long {n : ℕ} {body : Bytes} (hbody : 10 ∉ body) (hn : n ≤ body.length)
    (rest : Bytes) :
    takeLine n (body ++ 10 :: rest) = (body.take n, body.drop n ++ 10 :: rest) := by
  induction body generalizing n with
  | nil =>
    obtain rfl : n = 0 := by simpa using hn
    rfl
  | cons b body ih =>
    cases n with
    | zero => rfl
    | succ n =>
      obtain ⟨hb, hbody⟩ := not_or.mp (mt List.mem_cons.mpr hbody)
      have hrest := ih hbody (Nat.le_of_succ_le_succ hn)
      rw [List.cons_append, takeLine, if_neg (Ne.symm hb), hrest]
      rfl

/-- The loop reads a line before what follows it, in one turn if the line fits. -/
theorem fgetsLoop_line {size : ℕ} (hsize : 2 ≤ size) {body : Bytes} (hbody : 10 ∉ body) :
    ∃ pieces : List Bytes, pieces ≠ [] ∧ (body.length + 1 < size → pieces = [body ++ [10]]) ∧
      (size ≤ body.length + 1 → 2 ≤ pieces.length) ∧
      ∀ rest turns, (body ++ 10 :: rest).length ≤ turns →
        ∃ turns', rest.length ≤ turns' ∧
          fgetsLoop size turns (body ++ 10 :: rest) = pieces ++ fgetsLoop size turns' rest := by
  by_cases hfit : body.length + 1 < size
  · refine ⟨[body ++ [10]], List.cons_ne_nil _ _, fun _ => rfl, fun h => by omega, ?_⟩
    intro rest turns hturns
    rw [List.length_append, List.length_cons] at hturns
    obtain ⟨turns, rfl⟩ : ∃ m, turns = m + 1 := ⟨turns - 1, by omega⟩
    refine ⟨turns, by omega, ?_⟩
    have hne : body ++ 10 :: rest ≠ [] := by simp
    rw [fgetsLoop, fgets, if_neg hne, takeLine_short hbody (by omega)]
    rfl
  · have hdrop : 10 ∉ body.drop (size - 1) := fun h => hbody (List.mem_of_mem_drop h)
    obtain ⟨pieces, hpieces, -, -, hrest⟩ := fgetsLoop_line hsize hdrop
    refine ⟨body.take (size - 1) :: pieces, List.cons_ne_nil _ _, fun h => absurd h hfit,
      fun _ => ?_, ?_⟩
    · have hpos := List.length_pos_of_ne_nil hpieces
      rw [List.length_cons]
      omega
    · intro rest turns hturns
      rw [List.length_append, List.length_cons] at hturns
      obtain ⟨turns, rfl⟩ : ∃ m, turns = m + 1 := ⟨turns - 1, by omega⟩
      have hleft : (body.drop (size - 1) ++ 10 :: rest).length ≤ turns := by
        rw [List.length_append, List.length_cons, List.length_drop]
        omega
      obtain ⟨turns', hturns', heq⟩ := hrest rest turns hleft
      refine ⟨turns', hturns', ?_⟩
      have hne : body ++ 10 :: rest ≠ [] := by simp
      rw [fgetsLoop, fgets, if_neg hne, takeLine_long hbody (by omega)]
      exact congrArg (List.cons (body.take (size - 1))) heq
termination_by body.length
decreasing_by
  rw [List.length_drop]
  omega

theorem length_fgetsLoop {size turns : ℕ} (hsize : 0 < size) (bs : Bytes) :
    ∀ line ∈ fgetsLoop size turns bs, line.length < size := by
  induction turns generalizing bs with
  | zero => nofun
  | succ turns ih =>
    intro line hline
    rw [fgetsLoop, fgets] at hline
    split_ifs at hline with hnil
    · exact absurd hline List.not_mem_nil
    · rcases List.mem_cons.mp hline with rfl | hline
      · have hlen := takeLine_length (size - 1) bs
        omega
      · exact ih _ line hline

theorem fgetsLoop_short {size : ℕ} {lines : List Bytes}
    (hlines : ∀ l ∈ lines, IsLine l ∧ l.length < size) {turns : ℕ}
    (hturns : lines.flatten.length ≤ turns) : fgetsLoop size turns lines.flatten = lines := by
  induction lines generalizing turns with
  | nil =>
    cases turns with
    | zero => rfl
    | succ turns => rfl
  | cons l lines ih =>
    obtain ⟨⟨body, rfl, hbody⟩, hfit⟩ := hlines l List.mem_cons_self
    rw [List.length_append, List.length_singleton] at hfit
    obtain ⟨pieces, -, hone, -, hread⟩ := fgetsLoop_line (show 2 ≤ size by omega) hbody
    rw [List.flatten_cons, List.append_assoc, List.singleton_append] at hturns ⊢
    obtain ⟨turns', hturns', heq⟩ := hread _ turns hturns
    rw [heq, hone hfit, ih (fun l hl => hlines l (List.mem_cons_of_mem _ hl)) hturns']
    rfl

/-- Each line that does not fit gives at least one more. -/
theorem fgetsLoop_long {size : ℕ} (hsize : 2 ≤ size) {lines : List Bytes}
    (hlines : ∀ l ∈ lines, IsLine l) {turns : ℕ} (hturns : lines.flatten.length ≤ turns) :
    lines.length + lines.countP (size ≤ ·.length) ≤
      (fgetsLoop size turns lines.flatten).length := by
  induction lines generalizing turns with
  | nil => exact Nat.zero_le _
  | cons l lines ih =>
    obtain ⟨body, rfl, hbody⟩ := hlines l List.mem_cons_self
    obtain ⟨pieces, hne, -, htwo, hread⟩ := fgetsLoop_line hsize hbody
    rw [List.flatten_cons, List.append_assoc, List.singleton_append] at hturns ⊢
    obtain ⟨turns', hturns', heq⟩ := hread _ turns hturns
    have hrest := ih (fun l hl => hlines l (List.mem_cons_of_mem _ hl)) hturns'
    have hpos := List.length_pos_of_ne_nil hne
    rw [heq, List.length_append, List.length_cons, List.countP_cons, List.length_append,
      List.length_singleton]
    by_cases hlong : size ≤ body.length + 1
    · have htwo := htwo hlong
      rw [if_pos (decide_eq_true hlong)]
      omega
    · rw [if_neg (by simpa using hlong)]
      omega

end Opencore.Machine

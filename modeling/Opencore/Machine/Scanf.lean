import Opencore.Machine.Bytes

/-! Numbers as `printf` writes them, and `sscanf` reading them back. -/
namespace Opencore.Machine

def digitChar (d : ℕ) : UInt8 := if d < 10 then UInt8.ofNat (48 + d) else UInt8.ofNat (87 + d)

/-- `%0<width>x` for base 16 and `%0<width>u` for base 10. -/
def render (base width n : ℕ) : Bytes := (Nat.digitsAppend base width n).reverse.map digitChar

def digitValue (c : UInt8) : Option ℕ :=
  if 48 ≤ c.toNat ∧ c.toNat ≤ 57 then some (c.toNat - 48)
  else if 97 ≤ c.toNat ∧ c.toNat ≤ 102 then some (c.toNat - 87)
  else if 65 ≤ c.toNat ∧ c.toNat ≤ 70 then some (c.toNat - 55)
  else none

def isDigit (base : ℕ) (c : UInt8) : Bool := (digitValue c).any (· < base)

def isSpace (c : UInt8) : Bool := c.toNat = 32 ∨ (9 ≤ c.toNat ∧ c.toNat ≤ 13)

def digitsValue (base : ℕ) (digits : Bytes) : ℕ :=
  digits.foldl (fun v c => v * base + (digitValue c).getD 0) 0

def takeSign : Bytes → Bool × Bytes
  | [] => (false, [])
  | c :: bs =>
    if c.toNat = 45 then (true, bs)
    else if c.toNat = 43 then (false, bs)
    else (false, c :: bs)

def dropHexPrefix (base : ℕ) : Bytes → Bytes
  | z :: x :: d :: bs =>
    if base = 16 ∧ z.toNat = 48 ∧ (x.toNat = 120 ∨ x.toNat = 88) ∧ isDigit 16 d then d :: bs
    else z :: x :: d :: bs
  | bs => bs

/-- The conversions `%x`, `%lx`, `%u` and `%lu`, as `strtoull` makes them: a sign, a prefix
and digits; the value saturates. -/
def takeNum (base : ℕ) (bs : Bytes) : Option (ℕ × Bytes) :=
  let (negative, bs) := takeSign (bs.dropWhile isSpace)
  let bs := dropHexPrefix base bs
  let digits := bs.takeWhile (isDigit base)
  let value := digitsValue base digits
  if digits = [] then none
  else some (if 2 ^ 64 ≤ value then 2 ^ 64 - 1 else if negative then (2 ^ 64 - value) % 2 ^ 64
    else value, bs.drop digits.length)

inductive Directive
  | space
  | lit (c : UInt8)
  | num (base : ℕ)
  | chr
  /-- `%[^\n]` -/
  | line
  /-- `%n` -/
  | count
  deriving DecidableEq, Repr

inductive Item
  | num (value : ℕ)
  | chr (c : UInt8)
  | str (s : Bytes)
  | count (n : ℕ)
  deriving DecidableEq, Repr

/-- The items that `sscanf` stores until a directive fails. `total` is the length of the
whole input. -/
def scan (total : ℕ) : List Directive → Bytes → List Item
  | [], _ => []
  | .space :: ds, bs => scan total ds (bs.dropWhile isSpace)
  | .lit _ :: _, [] => []
  | .lit c :: ds, b :: bs => if b = c then scan total ds bs else []
  | .num base :: ds, bs =>
    match takeNum base bs with
    | none => []
    | some (value, rest) => .num value :: scan total ds rest
  | .chr :: _, [] => []
  | .chr :: ds, b :: bs => .chr b :: scan total ds bs
  | .line :: ds, bs =>
    let s := bs.takeWhile (· ≠ 10)
    if s = [] then [] else .str s :: scan total ds (bs.drop s.length)
  | .count :: ds, bs => .count (total - bs.length) :: scan total ds bs

def sscanf (format : List Directive) (bs : Bytes) : List Item := scan bs.length format bs

/-- The input does not go on with a digit or the letter of a prefix. -/
def Delimited (base : ℕ) (bs : Bytes) : Prop :=
  ∀ c ∈ bs.head?, isDigit base c = false ∧ c.toNat ≠ 120 ∧ c.toNat ≠ 88

theorem digitValue_digitChar {d : ℕ} (hd : d < 16) : digitValue (digitChar d) = some d := by
  interval_cases d <;> decide

theorem isDigit_digitChar {base d : ℕ} (hbase : base ≤ 16) (hd : d < base) :
    isDigit base (digitChar d) = true := by
  rw [isDigit, digitValue_digitChar (by omega)]
  simpa using hd

theorem digitsValue_reverse (base : ℕ) {digits : List ℕ} (h : ∀ d ∈ digits, d < 16) :
    digitsValue base (digits.reverse.map digitChar) = Nat.ofDigits base digits := by
  induction digits with
  | nil => rfl
  | cons d digits ih =>
    have hd := digitValue_digitChar (h d List.mem_cons_self)
    have hrest := ih fun e he => h e (List.mem_cons_of_mem d he)
    rw [digitsValue] at hrest ⊢
    rw [List.reverse_cons, List.map_append, List.foldl_append, hrest, Nat.ofDigits_cons]
    simp only [List.map_cons, List.map_nil, List.foldl_cons, List.foldl_nil, hd, Option.getD_some]
    ring

theorem isDigit_range {base : ℕ} {c : UInt8} (h : isDigit base c = true) :
    48 ≤ c.toNat ∧ c.toNat ≤ 57 ∨ 97 ≤ c.toNat ∧ c.toNat ≤ 102 ∨ 65 ≤ c.toNat ∧ c.toNat ≤ 70 := by
  unfold isDigit digitValue at h
  split_ifs at h with h09 haf hAF
  · exact Or.inl h09
  · exact Or.inr (Or.inl haf)
  · exact Or.inr (Or.inr hAF)
  · cases h

theorem dropHexPrefix_eq (base : ℕ) {bs : Bytes}
    (h : ∀ x ∈ (bs.drop 1).head?, x.toNat ≠ 120 ∧ x.toNat ≠ 88) : dropHexPrefix base bs = bs := by
  unfold dropHexPrefix
  split
  · next z x d rest =>
    obtain ⟨h120, h88⟩ := h x rfl
    rw [if_neg]
    rintro ⟨-, -, hx | hx, -⟩
    · exact h120 hx
    · exact h88 hx
  · rfl

theorem takeNum_digits {base : ℕ} {digits rest : Bytes} (hne : digits ≠ [])
    (hdigits : ∀ c ∈ digits, isDigit base c = true) (hvalue : digitsValue base digits < 2 ^ 64)
    (hrest : Delimited base rest) :
    takeNum base (digits ++ rest) = some (digitsValue base digits, rest) := by
  obtain ⟨d, ds, rfl⟩ := List.exists_cons_of_ne_nil hne
  have hd := isDigit_range (hdigits d List.mem_cons_self)
  have hspace : isSpace d = false := by
    simp only [isSpace, decide_eq_false_iff_not]
    omega
  have hsign : takeSign (d :: (ds ++ rest)) = (false, d :: (ds ++ rest)) := by
    rw [takeSign, if_neg (by omega), if_neg (by omega)]
  have hdrop : dropHexPrefix base (d :: (ds ++ rest)) = d :: (ds ++ rest) := by
    apply dropHexPrefix_eq
    intro x hx
    cases ds with
    | nil => exact (hrest x hx).2
    | cons e ds =>
      obtain rfl : e = x := by simpa using hx
      have he := isDigit_range (hdigits e (by simp))
      omega
  have htake : (d :: (ds ++ rest)).takeWhile (isDigit base) = d :: ds := by
    have hstop : rest.takeWhile (isDigit base) = [] := by
      cases rest with
      | nil => rfl
      | cons c rest => exact List.takeWhile_cons_of_neg (by simpa using (hrest c rfl).1)
    rw [← List.cons_append, List.takeWhile_append_of_pos hdigits, hstop, List.append_nil]
  rw [List.cons_append, takeNum, List.dropWhile_cons_of_neg (by simp [hspace]), hsign]
  simp only [hdrop, htake, if_neg hne, if_neg (by omega : ¬ 2 ^ 64 ≤ digitsValue base (d :: ds)),
    Bool.false_eq_true, if_false]
  rw [← List.cons_append, List.drop_left]

section Render

variable {base width n : ℕ}

theorem digitsValue_render (hbase : 1 < base) (hbase' : base ≤ 16) :
    digitsValue base (render base width n) = n := by
  have hdigits : ∀ d ∈ Nat.digitsAppend base width n, d < 16 := fun d hd =>
    (Nat.lt_of_mem_digitsAppend hbase width d hd).trans_le hbase'
  rw [render, digitsValue_reverse base hdigits, Nat.digitsAppend,
    Nat.ofDigits_append_replicate_zero, Nat.ofDigits_digits]

theorem isDigit_render (hbase : 1 < base) (hbase' : base ≤ 16) :
    ∀ c ∈ render base width n, isDigit base c = true := by
  intro c hc
  obtain ⟨d, hd, rfl⟩ := List.mem_map.mp hc
  exact isDigit_digitChar hbase' (Nat.lt_of_mem_digitsAppend hbase width d (List.mem_reverse.mp hd))

theorem render_ne_nil (hwidth : 0 < width) : render base width n ≠ [] := by
  intro h
  have hlen := congrArg List.length h
  simp only [render, Nat.digitsAppend, List.length_map, List.length_reverse, List.length_append,
    List.length_replicate, List.length_nil] at hlen
  omega

/-- `sscanf` reads back what `printf` wrote. -/
theorem takeNum_render (hbase : 1 < base) (hbase' : base ≤ 16) (hwidth : 0 < width)
    (hn : n < 2 ^ 64) {rest : Bytes} (hrest : Delimited base rest) :
    takeNum base (render base width n ++ rest) = some (n, rest) := by
  have hvalue : digitsValue base (render base width n) = n := digitsValue_render hbase hbase'
  have htake := takeNum_digits (render_ne_nil hwidth) (isDigit_render hbase hbase')
    (hvalue.trans_lt hn) hrest
  rw [hvalue] at htake
  exact htake

theorem head_render_append (hbase : 1 < base) (hbase' : base ≤ 16) (hwidth : 0 < width)
    (rest : Bytes) : ∀ c ∈ (render base width n ++ rest).head?, isSpace c = false := by
  intro c hc
  have hmem : c ∈ render base width n := by
    have hne : render base width n ≠ [] := render_ne_nil hwidth
    rw [List.head?_append_of_ne_nil _ hne] at hc
    exact List.mem_of_mem_head? hc
  have hrange := isDigit_range (isDigit_render hbase hbase' c hmem)
  simp only [isSpace, decide_eq_false_iff_not]
  omega

end Render

section Scan

variable {total : ℕ} {ds : List Directive}

theorem scan_num {base value : ℕ} {bs rest : Bytes} (h : takeNum base bs = some (value, rest)) :
    scan total (.num base :: ds) bs = .num value :: scan total ds rest := by
  rw [scan, h]

theorem scan_render {base width n : ℕ} (hbase : 1 < base) (hbase' : base ≤ 16)
    (hwidth : 0 < width) (hn : n < 2 ^ 64) {rest : Bytes} (hrest : Delimited base rest) :
    scan total (.num base :: ds) (render base width n ++ rest) = .num n :: scan total ds rest :=
  scan_num (takeNum_render hbase hbase' hwidth hn hrest)

theorem scan_lit (c : UInt8) (bs : Bytes) :
    scan total (.lit c :: ds) (c :: bs) = scan total ds bs := by
  rw [scan, if_pos rfl]

theorem scan_chr (c : UInt8) (bs : Bytes) :
    scan total (.chr :: ds) (c :: bs) = .chr c :: scan total ds bs := by
  rw [scan]

theorem scan_space {bs : Bytes} (h : ∀ c ∈ bs.head?, isSpace c = false) :
    scan total (.space :: ds) (32 :: bs) = scan total ds bs := by
  have hblank : isSpace 32 = true := by decide
  have hstop : bs.dropWhile isSpace = bs := by
    cases bs with
    | nil => rfl
    | cons c bs => exact List.dropWhile_cons_of_neg (by simp [h c rfl])
  rw [scan, List.dropWhile_cons_of_pos hblank, hstop]

theorem delimited_cons {base : ℕ} {c : UInt8} (bs : Bytes)
    (h : isDigit base c = false ∧ c.toNat ≠ 120 ∧ c.toNat ≠ 88) : Delimited base (c :: bs) := by
  intro d hd
  obtain rfl : c = d := by simpa using hd
  exact h

end Scan
end Opencore.Machine

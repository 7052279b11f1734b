import LpNet.Lib.Search
import LpNet.Buffer.Buffer

/-!
`Buffer::find` as a search in the contents.

The two loops over indices modulo `capacity_ + 1` compare the target with the
contents at each offset in turn, and leave as soon as an attempt reaches
`put_pos_`: `Search.search` on the contents (`find_eq`). What the target is
compared with is `searched`, for its length goes through an `int`.
-/

namespace LpNet

open Cyclic Transition Search

namespace Buffer

variable {b : Buffer} {target : List Byte}

/-- The characters of the target that `find` compares, when the length it computes is not
negative. -/
def searched (target : List Byte) : List Byte := target.take (target.length % 2 ^ 32)

/-- The least offset at which the target occurs in the contents, and -1 exactly when it
does not occur. -/
def FindsFirst (b : Buffer) (target : List Byte) : Prop :=
  ∃ n, b.find target = .ok n ∧ (∀ j : ℕ, First target b.contents j → n = j) ∧
    (n = -1 ↔ ¬ target <:+: b.contents)

/-! ### The loops in terms of the contents -/

theorem lt_size_of_drop {k : ℕ} {c : Byte} {rest : List Byte}
    (hdrop : b.contents.drop k = c :: rest) : k < b.size := by
  have hlen := congrArg List.length hdrop
  simp only [List.length_drop, contents_length, List.length_cons] at hlen
  omega

/-- The byte of the contents at an offset is the byte of the array at the index `find`
computes for it. -/
theorem load_contents (hheld : b.Held) {k : ℕ} {c : Byte} {rest : List Byte}
    (hdrop : b.contents.drop k = c :: rest) :
    load b.data ((b.getPos + k) % (b.capacity + 1)) = .ok c := by
  have hlt : k < b.contents.length := by simpa using lt_size_of_drop hdrop
  rw [load_ok (hheld k (lt_size_of_drop hdrop))]
  rw [List.drop_eq_getElem_cons hlt, List.cons.injEq] at hdrop
  rw [← hdrop.1]
  simp only [contents, cells, List.getElem_map, List.getElem_range]
  rfl

/-- One turn of the inner loop: at the end of the contents it leaves. -/
theorem scan_succ (h : b.Wf) (hheld : b.Held) {j i : ℕ} (n : ℕ) (hij : j + i ≤ b.size) :
    b.scan target j i (n + 1) =
      match b.contents.drop (j + i) with
      | [] => .ok none
      | c :: _ => (do
          let t ← loadArg (target ++ [0]) i
          if c ≠ t then .ok (some i) else b.scan target j (i + 1) n) := by
  have hcap := h.cap_lt
  have hget := h.get_le
  have hsize := h.size_le
  have hidx : b.indexOf (SizeT.add j b.getPos) i = (b.getPos + (j + i)) % (b.capacity + 1) := by
    rw [SizeT.add_eq (by omega), h.indexOf_eq (by omega),
      show j + b.getPos + i = b.getPos + (j + i) by omega]
  rw [scan, hidx]
  cases hdrop : b.contents.drop (j + i) with
  | nil =>
      have hend : j + i = b.size := by
        have hlen := congrArg List.length hdrop
        simp only [List.length_drop, contents_length, List.length_nil] at hlen
        omega
      rw [hend, h.get_add_size, if_pos rfl]
  | cons c rest =>
      have hlt := lt_size_of_drop hdrop
      have hne : (b.getPos + (j + i)) % (b.capacity + 1) ≠ b.putPos := by
        rw [← h.get_add_size]
        exact mod_ne_mod (by omega) (by omega)
      rw [if_neg hne, load_contents hheld hdrop, ok_bind]

theorem scan_eq (h : b.Wf) (hheld : b.Held) (target : List Byte) {j i n : ℕ} (hij : j + i ≤ b.size)
    (hn : i + n ≤ target.length) :
    match attempt ((target.drop i).take n) (b.contents.drop (j + i)) with
    | .matched => b.scan target j i n = .ok (some (i + n))
    | .ended => b.scan target j i n = .ok none
    | .differed => ∃ k < i + n, b.scan target j i n = .ok (some k) := by
  induction n generalizing i with
  | zero => simp [attempt, scan]
  | succ n ih =>
      have hlen : i < target.length := by omega
      have harg : loadArg (target ++ [0]) i = .ok target[i] := by
        rw [loadArg_ok (by simp; omega), List.getD_append _ _ _ _ hlen,
          List.getD_eq_getElem _ _ hlen]
      rw [scan_succ h hheld n hij, List.drop_eq_getElem_cons hlen, List.take_succ_cons]
      cases hdrop : b.contents.drop (j + i) with
      | nil => simp [attempt]
      | cons c rest =>
          have hmore : j + (i + 1) ≤ b.size := lt_size_of_drop hdrop
          have hrest : b.contents.drop (j + (i + 1)) = rest := by
            rw [← Nat.add_assoc, ← List.drop_drop, hdrop, List.drop_one, List.tail_cons]
          have hnext := ih hmore (by omega)
          rw [hrest, show i + 1 + n = i + (n + 1) by omega] at hnext
          rw [attempt]
          simp only [harg, ok_bind]
          by_cases heq : c = target[i]
          case pos =>
            rw [if_pos heq, if_neg (not_not.mpr heq)]
            exact hnext
          case neg =>
            rw [if_neg heq, if_pos heq]
            exact ⟨i, by omega, rfl⟩

def answer (j : ℕ) : Option ℕ → ℤ
  | some k => toInt (j + k : ℕ)
  | none => -1

theorem findFrom_eq (h : b.Wf) (hheld : b.Held) {len j n : ℕ} (hlen : len ≤ target.length)
    (hjn : j + n = b.size) :
    b.findFrom target len j n =
      .ok (answer j (search (target.take len) (b.contents.drop j))) := by
  induction n generalizing j with
  | zero =>
      have hnil : b.contents.drop j = [] := List.drop_of_length_le (by simp; omega)
      rw [hnil]
      rfl
  | succ n ih =>
      have hlt : j < b.contents.length := by simp; omega
      have hscan := scan_eq h hheld target (j := j) (i := 0) (n := len)
        (by omega) (by omega)
      rw [List.drop_zero, Nat.add_zero, Nat.zero_add] at hscan
      rw [findFrom]
      rw [List.drop_eq_getElem_cons hlt] at hscan ⊢
      rw [search]
      cases hatt : attempt (target.take len) (b.contents[j] :: b.contents.drop (j + 1)) with
      | matched =>
          simp only [hatt] at hscan
          simp [hscan, ok_bind, answer]
      | ended =>
          simp only [hatt] at hscan
          simp [hscan, ok_bind, answer]
      | differed =>
          simp only [hatt] at hscan
          obtain ⟨k, hk, hscan⟩ := hscan
          simp only [hscan, ok_bind, if_neg (show k ≠ len by omega)]
          rw [ih (by omega)]
          cases search (target.take len) (b.contents.drop (j + 1)) with
          | none => rfl
          | some m => simp [answer, show j + 1 + m = j + (m + 1) by omega]

theorem find_eq (h : b.Wf) (hheld : b.Held) (hlen : target.length % 2 ^ 32 < 2 ^ 31) :
    b.find target = .ok (answer 0 (search (searched target) b.contents)) := by
  rw [find, ofInt_toInt, if_pos hlen, findFrom_eq h hheld (Nat.mod_le ..) (Nat.zero_add _)]
  rfl

/-! ### A target whose length is no `int` -/

/-- The inner loop cannot get to an index behind the end of the contents. -/
theorem scan_long (h : b.Wf) (hheld : b.Held) (target : List Byte) {j i n : ℕ}
    (hij : j + i ≤ b.size) (hlong : b.size < j + (i + n)) :
    b.scan target j i n ≠ .ok (some (i + n)) := by
  induction n generalizing i with
  | zero => omega
  | succ n ih =>
      rw [scan_succ h hheld n hij]
      cases hdrop : b.contents.drop (j + i) with
      | nil => simp
      | cons c rest =>
          have hmore : j + (i + 1) ≤ b.size := lt_size_of_drop hdrop
          dsimp only
          cases loadArg (target ++ [0]) i with
          | error e => rw [error_bind]; exact nofun
          | ok t =>
              rw [ok_bind]
              split
              · simp
              · rw [show i + (n + 1) = i + 1 + n by omega]
                exact ih hmore (by omega)

/-- The inner loop stays inside a target that is no shorter than the contents. -/
theorem scan_total (h : b.Wf) (hheld : b.Held) (hlen : b.size ≤ target.length) {j i n : ℕ}
    (hij : j + i ≤ b.size) : ∃ found, b.scan target j i n = .ok found := by
  induction n generalizing i with
  | zero => exact ⟨some i, rfl⟩
  | succ n ih =>
      rw [scan_succ h hheld n hij]
      cases hdrop : b.contents.drop (j + i) with
      | nil => exact ⟨none, rfl⟩
      | cons c rest =>
          have hmore : j + (i + 1) ≤ b.size := lt_size_of_drop hdrop
          simp only [loadArg_ok (show i < (target ++ [0]).length by simp; omega), ok_bind]
          split
          · exact ⟨some i, rfl⟩
          · exact ih hmore

theorem findFrom_long (h : b.Wf) (hheld : b.Held) {len j n : ℕ} (hlong : b.size < len)
    (hjn : j + n = b.size) {found : ℤ} (hfind : b.findFrom target len j n = .ok found) :
    found = -1 := by
  induction n generalizing j with
  | zero =>
      injection hfind with hfind
      exact hfind.symm
  | succ n ih =>
      rw [findFrom, bind_eq_ok] at hfind
      obtain ⟨res, hscan, hfind⟩ := hfind
      cases res with
      | none =>
          injection hfind with hfind
          exact hfind.symm
      | some i =>
          have hne : i ≠ len := by
            rintro rfl
            have hnever := scan_long h hheld target (j := j) (i := 0) (n := i)
              (by omega) (by omega)
            rw [Nat.zero_add] at hnever
            exact hnever hscan
          simp only [if_neg hne] at hfind
          exact ih (by omega) hfind

theorem findFrom_total (h : b.Wf) (hheld : b.Held) (hlen : b.size ≤ target.length)
    {len j n : ℕ} (hjn : j + n = b.size) :
    ∃ found, b.findFrom target len j n = .ok found := by
  induction n generalizing j with
  | zero => exact ⟨-1, rfl⟩
  | succ n ih =>
      obtain ⟨res, hscan⟩ := scan_total h hheld hlen (j := j) (i := 0) (n := len) (by omega)
      rw [findFrom, hscan, ok_bind]
      cases res with
      | none => exact ⟨-1, rfl⟩
      | some i =>
          dsimp only
          split
          · exact ⟨_, rfl⟩
          · exact ih (by omega)

/-- A length that is negative as an `int` becomes the largest of lengths, and nothing is
found. -/
theorem find_long (h : b.Wf) (hheld : b.Held) (hlen : 2 ^ 31 ≤ target.length % 2 ^ 32)
    {found : ℤ} (hfind : b.find target = .ok found) : found = -1 := by
  have hsize := h.size_le
  have hcap := h.cap_lt
  rw [find, ofInt_toInt, if_neg (by omega)] at hfind
  exact findFrom_long h hheld (by omega) (Nat.zero_add _) hfind

theorem find_total (h : b.Wf) (hheld : b.Held) (hlen : b.size ≤ target.length) :
    ∃ found, b.find target = .ok found :=
  findFrom_total h hheld hlen (Nat.zero_add _)

/-! ### When the result is the first occurrence -/

theorem searched_of_lt (h : target.length < 2 ^ 32) : searched target = target := by
  rw [searched, Nat.mod_eq_of_lt h, List.take_length]

theorem searched_prefix (target : List Byte) : searched target <+: target := List.take_prefix ..

theorem find_cases (h : b.Wf) (hheld : b.Held) (hsize : b.size < 2 ^ 31)
    (hlen : target.length % 2 ^ 32 < 2 ^ 31) :
    (∃ j : ℕ, j < b.size ∧ First (searched target) b.contents j ∧ b.find target = .ok j) ∨
      ((b.contents = [] ∨ ¬ searched target <:+: b.contents) ∧ b.find target = .ok (-1)) := by
  rw [find_eq h hheld hlen]
  cases hres : search (searched target) b.contents with
  | none => exact .inr ⟨search_eq_none_iff.mp hres, rfl⟩
  | some j =>
      obtain ⟨hj, hfirst⟩ := search_eq_some_iff.mp hres
      rw [contents_length] at hj
      refine .inl ⟨j, hj, hfirst, ?_⟩
      rw [answer, Nat.zero_add, toInt_of_lt (by omega)]

/-- The targets that `find` takes for one they only start with: the length loses a multiple
of 2^32 on its way through the `int`, and what is left of it is found. -/
def Mistaken (b : Buffer) (target : List Byte) : Prop :=
  2 ^ 32 ≤ target.length ∧ target.length % 2 ^ 32 < 2 ^ 31 ∧ b.contents ≠ [] ∧
    searched target <:+: b.contents

/-- A target that is found at its own first occurrence, or nowhere. -/
theorem find_right (h : b.Wf) (hheld : b.Held) (hsize : b.size < 2 ^ 31) (hne : target ≠ [])
    (hright : ¬ b.Mistaken target) :
    (∃ j : ℕ, First target b.contents j ∧ b.find target = .ok j) ∨
      (¬ target <:+: b.contents ∧ b.find target = .ok (-1)) := by
  by_cases hlen : target.length % 2 ^ 32 < 2 ^ 31
  case neg =>
    have hlong : b.size ≤ target.length := by
      have := Nat.mod_le target.length (2 ^ 32)
      omega
    obtain ⟨found, hfind⟩ := find_total h hheld hlong
    have hnot : ¬ target <:+: b.contents := by
      apply not_infix_of_length_lt
      have := Nat.mod_le target.length (2 ^ 32)
      rw [contents_length]
      omega
    exact .inr ⟨hnot, by rw [hfind, find_long h hheld (by omega) hfind]⟩
  case pos =>
    by_cases hwhole : target.length < 2 ^ 32
    case pos =>
      have hcases := find_cases h hheld hsize hlen
      rw [searched_of_lt hwhole] at hcases
      rcases hcases with ⟨j, -, hfirst, hfind⟩ | ⟨hnone, hfind⟩
      · exact .inl ⟨j, hfirst, hfind⟩
      · refine .inr ⟨?_, hfind⟩
        rcases hnone with hnil | hnot
        · rw [hnil, List.infix_nil]
          exact hne
        · exact hnot
    case neg =>
      have hnot : ¬ target <:+: b.contents := by
        apply not_infix_of_length_lt
        rw [contents_length]
        omega
      rcases find_cases h hheld hsize hlen with ⟨j, hj, hfirst, -⟩ | ⟨-, hfind⟩
      · refine absurd ⟨by omega, hlen, ?_, hfirst.occurs⟩ hright
        rw [← List.length_pos_iff, contents_length]
        omega
      · exact .inr ⟨hnot, hfind⟩

theorem find_mistaken (h : b.Wf) (hheld : b.Held) (hsize : b.size < 2 ^ 31)
    (hwrong : b.Mistaken target) :
    ¬ target <:+: b.contents ∧ ∃ j : ℕ, j < b.size ∧ b.find target = .ok j := by
  obtain ⟨hlong, hlen, hne, hocc⟩ := hwrong
  constructor
  · apply not_infix_of_length_lt
    rw [contents_length]
    omega
  · rcases find_cases h hheld hsize hlen with ⟨j, hj, -, hfind⟩ | ⟨hnone, -⟩
    · exact ⟨j, hj, hfind⟩
    · exact absurd hnone (by simp [hne, hocc])

/-- `find` answers the first occurrence of the target, or -1, exactly when it does not take
the target for a shorter one. -/
theorem findsFirst_iff (b : Buffer) (h : b.Wf) (hheld : b.Held) (hsize : b.size < 2 ^ 31)
    (target : List Byte) (hne : target ≠ []) :
    b.FindsFirst target ↔ ¬ b.Mistaken target := by
  constructor
  · rintro ⟨n, hfind, -, hneg⟩ hwrong
    obtain ⟨hnot, j, -, hfound⟩ := find_mistaken h hheld hsize hwrong
    rw [hfound] at hfind
    injection hfind with hn
    have hminus := hneg.mpr hnot
    omega
  · intro hright
    rcases find_right h hheld hsize hne hright with ⟨j, hfirst, hfind⟩ | ⟨hnot, hfind⟩
    · refine ⟨j, hfind, fun k hk => by rw [hfirst.unique hk], ?_⟩
      have hocc := hfirst.occurs
      constructor
      · omega
      · exact fun hno => absurd hocc hno
    · refine ⟨-1, hfind, fun k hk => absurd hk.occurs hnot, ?_⟩
      simp [hnot]

/-- The attempt at the first byte of `AAB` fails at the second character of `AB`. -/
theorem findsFirst_iff_wrapped :
    wrapped.FindsFirst [65, 66] ↔ ¬ wrapped.Mistaken [65, 66] :=
  findsFirst_iff wrapped wrapped_wf wrapped_held (by decide) [65, 66] (by decide)

/-- One byte, `B`, in a buffer with room for one. -/
def oneByte : Buffer := ⟨1, 1, 0, [66, 0]⟩

theorem oneByte_wf : oneByte.Wf := ⟨by decide, by decide, by decide, by decide⟩

theorem oneByte_held : oneByte.Held := held_of_alloc rfl

/-- Of 2^32 characters `find` compares none, and finds them in any contents. -/
theorem mistaken_replicate : oneByte.Mistaken (List.replicate (2 ^ 32) 65) := by
  refine ⟨?_, ?_, by decide, ?_⟩
  · rw [List.length_replicate]
  · rw [List.length_replicate]
    decide
  · rw [searched, List.length_replicate, Nat.mod_self, List.take_zero]
    exact List.nil_infix

/-- `find` answers 0 for a target that does not occur. -/
theorem find_takes_first_for_absent : ¬ oneByte.FindsFirst (List.replicate (2 ^ 32) 65) := by
  rintro ⟨n, hfind, -, hneg⟩
  obtain ⟨hnot, j, -, hfound⟩ :=
    find_mistaken oneByte_wf oneByte_held (by decide) mistaken_replicate
  rw [hfound] at hfind
  injection hfind with hn
  have hminus := hneg.mpr hnot
  omega

end Buffer

end LpNet

import ScriptBundler.Proofs.Glob.Escape
import ScriptBundler.Proofs.Path.Route

/-!
# Anchored patterns

A pattern that is seen from a root is read behind the opening of the root. Where the root has no pattern syntax, its
opening is read as it stands, and the tokens behind it do not depend on it (`read_along`). So it does not depend on such a
root which texts below it the pattern matches (`pathMatches_anchor`).
-/

namespace ScriptBundler.Glob

variable {p q s t : Path} {c : Char} {cs front : List Char} {text : String} {n m : Nat} {before : Option Char}
  {done tokens kept : List Token} {token : Token}

/-! ### Texts without pattern syntax -/

/-- The text of the path has no pattern syntax. -/
def Plain (p : Path) : Prop := ¬ hasMagic p.text = true

instance : Decidable (Plain p) := inferInstanceAs (Decidable (¬ _))

private theorem plain_iff : Plain p ↔ ∀ c ∈ p.text.toList, c ≠ '*' ∧ c ≠ '?' ∧ c ≠ '[' := by
  rw [Plain, hasMagic, List.any_eq_true, not_exists]
  refine forall_congr' fun c => ?_
  rw [not_and, decide_eq_true_iff, not_or, not_or]

theorem Plain.opening (h : Plain p) : ∀ c ∈ p.opening, c ≠ '*' ∧ c ≠ '?' ∧ c ≠ '[' := by
  rw [plain_iff] at h
  unfold Path.opening
  split
  · exact h
  · rw [List.forall_mem_append, List.forall_mem_singleton]
    exact ⟨h, by decide⟩

theorem hasMagic_anchor (h : Plain p) (hp : p.text ≠ "") (ht : t.isAbsolute = false) :
    hasMagic (p.join t).text = hasMagic t.text := by
  have front : p.opening.any (fun c => c = '*' ∨ c = '?' ∨ c = '[') = false := by
    rw [List.any_eq_false]
    intro c hc
    obtain ⟨h₁, h₂, h₃⟩ := h.opening c hc
    simp [h₁, h₂, h₃]
  rw [hasMagic, Path.toList_join_of_relative hp ht, List.any_append, front, Bool.false_or]
  rfl

/-! ### Reading behind a front -/

/-- What becomes of the tokens behind a front when one more is read. -/
def pushBehind (kept : List Token) (token : Token) : List Token :=
  if token = .anyDirectories ∧ kept.getLast? = some .anyDirectories then kept else kept ++ [token]

private theorem push_append (done kept : List Token) (token : Token) :
    push (done ++ [.char c] ++ kept) token = done ++ [.char c] ++ pushBehind kept token := by
  unfold pushBehind
  cases token with
  | anyDirectories =>
    rw [push]
    rcases List.eq_nil_or_concat kept with rfl | ⟨front, last, rfl⟩
    · simp
    · rw [List.concat_eq_append, ← List.append_assoc, List.getLast?_concat, List.getLast?_concat]
      by_cases again : last = .anyDirectories
      · have long : (done ++ [Token.char c] ++ (front ++ [last])).length > 1 := by
          simp only [List.length_append, List.length_cons, List.length_nil]
          omega
        rw [← List.append_assoc] at long
        rw [if_pos ⟨long, by rw [again]⟩, if_pos ⟨rfl, by rw [again]⟩, ← List.append_assoc]
      · simp [again]
  | _ => simp [push]

/-- Both results are answers that `R` relates, or both are errors. -/
inductive Agree {ε ε' α β : Type} (R : α → β → Prop) : Except ε α → Except ε' β → Prop
  | error {e : ε} {e' : ε'} : Agree R (.error e) (.error e')
  | ok {a : α} {b : β} (h : R a b) : Agree R (.ok a) (.ok b)

/-- The same tokens come behind two fronts. -/
def Behind (front front' : List Token) (tokens tokens' : List Token) : Prop :=
  ∃ kept, tokens = front ++ kept ∧ tokens' = front' ++ kept

/-- The tokens behind a front that ends with a character do not depend on the front. -/
theorem read_along (done done' kept : List Token) (n m : Nat) (before : Option Char) (cs : List Char) :
    Agree (Behind (done ++ [.char c]) (done' ++ [.char c])) (read (done ++ [.char c] ++ kept) n before cs)
      (read (done' ++ [.char c] ++ kept) m before cs) := by
  generalize e : done ++ [.char c] ++ kept = all
  induction all, n, before, cs using read.induct generalizing kept m with
  | case1 =>
    rw [read, read, ← e]
    exact .ok ⟨_, rfl, rfl⟩
  | case2 all n before rest ih =>
    rw [read, read, push_append]
    exact ih _ _ (by rw [← e, push_append])
  | case3 =>
    rw [read, read]
    exact .error
  | case4 all n before near =>
    rw [read, read, if_pos near, if_pos near, ← e, push_append, push_append]
    exact .ok ⟨_, rfl, rfl⟩
  | case5 all n before near rest _ ih =>
    rw [read, read, if_pos near, if_pos near, push_append]
    exact ih _ _ (by rw [← e, push_append])
  | case6 all n before rest more near other other' =>
    have crowded (done : List Token) (n : Nat) : read done n before ('*' :: '*' :: rest) = .error ⟨n + 2, .crowdedStars⟩ := by
      rw [read, if_pos near] <;> assumption
    rw [crowded, crowded]
    exact .error
  | case7 all n before rest more far =>
    have crowded (done : List Token) (n : Nat) : read done n before ('*' :: '*' :: rest) = .error ⟨n - 1, .crowdedStars⟩ := by
      -- what stands behind the stars does not matter, except that there is no third one
      rcases rest with _ | ⟨c, rest⟩
      · rw [read, if_neg far]
      · by_cases slash : c = '/'
        · subst slash
          rw [read, if_neg far]
        · rw [read, if_neg far] <;> simp_all
    rw [crowded, crowded]
    exact .error
  | case8 all n before rest more more' ih =>
    have step (done : List Token) (n : Nat) : read done n before ('*' :: rest) =
        read (push done .anyRun) (n + 1) (some '*') rest := by
      rw [read] <;> assumption
    rw [step, step, push_append]
    exact ih _ _ (by rw [← e, push_append])
  | case9 all n before rest token after found ih =>
    have step (done : List Token) (n : Nat) : read done n before ('[' :: rest) =
        read (push done token) (n + 1 + (rest.length - after.length)) (some ']') after := by
      rw [read]
      split
      · rename_i found'
        rw [found, Option.some_inj, Prod.mk.injEq] at found'
        rw [found'.1, found'.2]
      · rename_i none
        rw [found] at none
        cases none
    rw [step, step, push_append]
    exact ih _ _ (by rw [← e, push_append])
  | case10 all n before rest none =>
    have failing (done : List Token) (n : Nat) : read done n before ('[' :: rest) = .error ⟨n, .openClass⟩ := by
      rw [read]
      split
      · rename_i found
        rw [none] at found
        cases found
      · rfl
    rw [failing, failing]
    exact .error
  | case11 all n before c' rest question _ _ star bracket ih =>
    rw [read_plain ⟨star, question, bracket⟩, read_plain ⟨star, question, bracket⟩, push_append]
    exact ih _ _ (by rw [← e, push_append])

/-- A front without pattern syntax is read as it stands. -/
private theorem read_front (plain : ∀ c ∈ front, c ≠ '*' ∧ c ≠ '?' ∧ c ≠ '[') :
    read done n before (front ++ '/' :: cs) = read (done ++ front.map .char ++ [.char '/']) (n + front.length + 1) (some '/') cs := by
  induction front generalizing done n before with
  | nil =>
    rw [List.nil_append, read_plain (by decide)]
    simp [push]
  | cons c front ih =>
    rw [List.forall_mem_cons] at plain
    rw [List.cons_append, read_plain plain.1, ih plain.2]
    simp [push, Nat.add_comm, Nat.add_left_comm]

/-! ### Patterns behind a root -/

/-- Behind two roots without pattern syntax, the same is read of a pattern. -/
theorem parse_anchor (h : Plain p) (h' : Plain q) (hp : p.text ≠ "") (hq : q.text ≠ "") (ht : t.isAbsolute = false) :
    Agree (Behind (p.opening.map .char) (q.opening.map .char)) (parse (p.join t).text) (parse (q.join t).text) := by
  have opened {p : Path} (h : Plain p) (hp : p.text ≠ "") : ∃ front n, p.opening.map Token.char = front ++ [.char '/'] ∧
      parse (p.join t).text = read (p.opening.map .char) n (some '/') t.text.toList := by
    obtain ⟨front, opens, -⟩ := Path.opening_eq hp
    have plain : ∀ c ∈ front, c ≠ '*' ∧ c ≠ '?' ∧ c ≠ '[' := fun c hc => h.opening c (by simp [opens, hc])
    refine ⟨front.map .char, 0 + front.length + 1, by simp [opens], ?_⟩
    rw [parse, Path.toList_join_of_relative hp ht, opens, List.append_assoc, List.singleton_append, read_front plain]
    simp
  obtain ⟨front, n, opens, spelled⟩ := opened h hp
  obtain ⟨front', n', opens', spelled'⟩ := opened h' hq
  rw [spelled, spelled', opens, opens']
  simpa using read_along front front' [] n n' (some '/') t.text.toList

/-- A front matches itself. -/
private theorem attempt_front (front : List Char) :
    attempt true (front.map .char ++ tokens) (front ++ cs) = attempt true tokens cs := by
  induction front with
  | nil => rfl
  | cons c front ih =>
    rw [List.map_cons, List.cons_append, List.cons_append, attempt, if_neg (by simp)]
    simpa [Token.accepts] using ih

/-- Below roots without pattern syntax, a pattern matches the same texts. -/
theorem pathMatches_anchor (h : Plain p) (h' : Plain q) (hp : p.text ≠ "") (hq : q.text ≠ "") (hs : s.isAbsolute = false)
    (ht : t.isAbsolute = false) :
    pathMatches (p.join s).text (p.join t).text = pathMatches (q.join s).text (q.join t).text := by
  have read := parse_anchor h h' hp hq ht
  unfold pathMatches
  generalize parse (p.join t).text = r, parse (q.join t).text = r' at read
  cases read with
  | error => rfl
  | ok behind =>
    obtain ⟨kept, rfl, rfl⟩ := behind
    dsimp only
    rw [matchAll, matchAll, Path.toList_join_of_relative hp hs, Path.toList_join_of_relative hq hs, attempt_front,
      attempt_front]

end ScriptBundler.Glob

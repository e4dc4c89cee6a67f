import ScriptBundler.Proofs.Text.Base64
import ScriptBundler.SourceMap.Inline

/-!
# Comments that are read again

A comment is written behind a text, and looked for in the last line of what is read. Where a line begins behind the text,
the comment is found with its payload (`payload?_comment`), and the map is the one that was written (`extract_append`).
Where the text leaves a line open, the comment is a part of this line and no comment any more, unless the line begins with
an opening of its own: no beginning of an opening makes another one with the comment (`not_opening_append`).
-/

namespace ScriptBundler

/-! ### Ends of texts -/

namespace Text

variable {α : Type} {p : α → Bool} {xs ys : List α} {cs tail : List Char}

private theorem dropEndWhile_append (h : ∀ y ∈ ys, p y = true) : dropEndWhile p (xs ++ ys) = dropEndWhile p xs := by
  rw [dropEndWhile, List.reverse_append, List.dropWhile_append_of_pos fun y hy => h y (List.mem_reverse.1 hy)]
  rfl

private theorem dropEndWhile_of_neg {y : α} (h : ¬ p y = true) (xs : List α) :
    dropEndWhile p (xs ++ [y]) = xs ++ [y] := by
  rw [dropEndWhile, List.reverse_concat, List.dropWhile_cons_of_neg h, ← List.reverse_concat, List.reverse_reverse]

private theorem trimEnd_append (h : ∀ c ∈ tail, isBlank c = false) (hne : tail ≠ []) (cs : List Char) :
    trimEnd (cs ++ tail) = cs ++ tail := by
  obtain ⟨front, last, rfl⟩ := (List.eq_nil_or_concat' tail).resolve_left hne
  have visible : ¬ isBlank last = true := by simp [h last (by simp)]
  rw [← List.append_assoc, trimEnd, dropEndWhile_of_neg visible]

private theorem trim_eq (h : ∀ c ∈ cs, isBlank c = false) : trim cs = cs := by
  cases cs with
  | nil => rfl
  | cons c cs =>
    have first : ¬ isBlank c = true := by simp [h c List.mem_cons_self]
    rw [trim, List.dropWhile_cons_of_neg first]
    exact trimEnd_append h (List.cons_ne_nil _ _) []

end Text

namespace SourceMap

variable {m : SourceMap} {text line : List Char} {opening : String} {c : Char}

/-- What stands behind the last newline of a text. -/
def openLine (text : List Char) : List Char := (text.reverse.takeWhile (· ≠ '\n')).reverse

/-- A text is empty or ends with a newline, so that a line begins behind it. -/
def EndsLine (text : List Char) : Prop := text = [] ∨ text.getLast? = some '\n'

instance (text : List Char) : Decidable (EndsLine text) := inferInstanceAs (Decidable (_ ∨ _))

private theorem endsLine_iff : EndsLine text ↔ openLine text = [] := by
  rcases List.eq_nil_or_concat' text with rfl | ⟨front, last, rfl⟩
  · simp [EndsLine, openLine]
  · by_cases h : last = '\n' <;> simp [EndsLine, openLine, h]

private theorem EndsLine.dropEndWhile_eq (h : EndsLine text) : Text.dropEndWhile (· ≠ '\n') text = text := by
  rcases List.eq_nil_or_concat' text with rfl | ⟨front, last, rfl⟩
  · rfl
  · have newline : last = '\n' := by simpa [EndsLine] using h
    rw [Text.dropEndWhile_of_neg (by simp [newline])]

/-! ### The line of a comment -/

private theorem toList_comment (m : SourceMap) : m.comment.toList =
    commentOpening.toList ++ (dataOpening.toList ++ (Text.Base64.encode m.encode.toUTF8).toList) := by
  rw [comment, String.toList_append, String.toList_append, List.append_assoc]

private theorem not_isBlank_dataOpening (h : c ∈ dataOpening.toList) : Text.isBlank c = false := by
  have none_blank : dataOpening.toList.all (!Text.isBlank ·) = true := by decide +kernel
  simpa using List.all_eq_true.1 none_blank c h

private theorem not_mem_commentOpening : '\n' ∉ commentOpening.toList := by decide +kernel

private theorem not_isBlank_of_mem_data
    (h : c ∈ dataOpening.toList ++ (Text.Base64.encode m.encode.toUTF8).toList) : Text.isBlank c = false :=
  (List.mem_append.1 h).elim not_isBlank_dataOpening Text.Base64.not_isBlank_of_mem_encode

private theorem not_newline_of_mem_comment (h : c ∈ m.comment.toList) : c ≠ '\n' := by
  rintro rfl
  rw [toList_comment, List.mem_append] at h
  rcases h with h | h
  · exact not_mem_commentOpening h
  · have blank := not_isBlank_of_mem_data h
    revert blank
    decide

/-- The last line of a text with a comment behind it is the line that the text leaves open, and the comment. -/
private theorem lastLine_append (text : List Char) (m : SourceMap) :
    lastLine (text ++ m.comment.toList) =
      (Text.dropEndWhile (· ≠ '\n') text, openLine text ++ m.comment.toList) := by
  have whole : Text.trimEnd (text ++ m.comment.toList) = text ++ m.comment.toList := by
    rw [toList_comment, ← List.append_assoc]
    refine Text.trimEnd_append (fun c => not_isBlank_of_mem_data) ?_ _
    exact List.append_ne_nil_of_left_ne_nil (by decide +kernel) _
  have one_line : ∀ c ∈ m.comment.toList, decide (c ≠ '\n') = true := fun c hc =>
    decide_eq_true (not_newline_of_mem_comment hc)
  rw [lastLine]
  simp only [whole]
  rw [Text.dropEndWhile_append one_line, List.reverse_append,
    List.takeWhile_append_of_pos fun c hc => one_line c (List.mem_reverse.1 hc), List.reverse_append, List.reverse_reverse]
  rfl

/-! ### The payload -/

private theorem behind?_append (opening : String) (rest : List Char) :
    behind? opening (opening.toList ++ rest) = some rest := by
  rw [behind?, if_pos (List.isPrefixOf_iff_prefix.2 (List.prefix_append ..)), ← String.length_toList, List.drop_left]

private theorem behind?_eq_none (h : ¬ opening.toList <+: line) : behind? opening line = none := by
  rw [behind?, if_neg (mt List.isPrefixOf_iff_prefix.1 h)]

/-- A mark is not found where its first character is missing. -/
private theorem behindFirst?_append (mark : String) (skipped : List Char) (first : mark.toList.head? = some c)
    (absent : c ∉ skipped) (rest : List Char) : behindFirst? mark (skipped ++ rest) = behindFirst? mark rest := by
  induction skipped with
  | nil => rfl
  | cons x skipped ih =>
    rw [List.mem_cons, not_or] at absent
    have other : ¬ mark.toList <+: x :: (skipped ++ rest) := by
      rintro ⟨tail, e⟩
      rcases hm : mark.toList with _ | ⟨y, ys⟩
      · rw [hm] at first
        cases first
      · rw [hm, List.head?_cons, Option.some_inj] at first
        rw [hm, List.cons_append, List.cons.injEq] at e
        exact absent.1 (first.symm.trans e.1)
    rw [List.cons_append, behindFirst?, behind?_eq_none other, ih absent.2]

private theorem behindFirst?_mark (mark : String) (rest : List Char) (hne : mark.toList ≠ []) :
    behindFirst? mark (mark.toList ++ rest) = some rest := by
  have found := behind?_append mark rest
  rcases hm : mark.toList with _ | ⟨c, cs⟩
  · exact absurd hm hne
  · rw [hm] at found
    rw [List.cons_append] at found ⊢
    rw [behindFirst?, found]

theorem payload?_comment (m : SourceMap) :
    payload? m.comment.toList = some (Text.Base64.encode m.encode.toUTF8).toList := by
  have data_eq : dataOpening.toList = "data:application/json".toList ++ (";charset=utf-8;".toList ++ "base64,".toList) := by
    decide +kernel
  have begins : "base64,".toList.head? = some 'b' := by decide +kernel
  have skip := behindFirst?_append "base64," ";charset=utf-8;".toList begins (by decide +kernel)
  have found := behindFirst?_mark "base64," (Text.Base64.encode m.encode.toUTF8).toList (by decide +kernel)
  rw [payload?, toList_comment, behind?_append, data_eq, List.append_assoc, List.append_assoc]
  rw [Option.some_or, Option.bind_eq_bind, Option.bind_some, behind?_append]
  exact (skip _).trans found

/-- An opening that does not begin a line does not begin it with a comment behind it either, if no end of the opening is
the beginning of a comment. -/
theorem not_opening_append (hne : line ≠ []) (h : ¬ opening.toList <+: line) (len : opening.length = commentOpening.length)
    (border : ∀ k < opening.length, 0 < k → ¬ opening.toList.drop k <+: commentOpening.toList) (m : SourceMap) :
    ¬ opening.toList <+: line ++ m.comment.toList := by
  intro k
  rcases List.prefix_or_prefix_of_prefix k (List.prefix_append line m.comment.toList) with k' | ⟨tail, e⟩
  · exact h k'
  · -- what the line lacks of the opening would have to be the beginning of the comment
    rw [← e, List.prefix_append_right_inj, toList_comment] at k
    have lengths : line.length + tail.length = opening.length := by
      rw [← String.length_toList, ← e, List.length_append]
    have positive : 0 < line.length := List.length_pos_iff.2 hne
    have nonempty : 0 < tail.length := by
      refine List.length_pos_iff.2 fun nil => h ⟨[], ?_⟩
      rw [← e, nil, List.append_nil, List.append_nil]
    have short : tail.length ≤ commentOpening.toList.length := by
      rw [String.length_toList]
      omega
    have begins : tail <+: commentOpening.toList := List.prefix_of_prefix_length_le k (List.prefix_append ..) short
    refine border line.length (by omega) positive ?_
    rwa [← e, List.drop_left]

private theorem borders : ∀ k < 21, 0 < k → ¬ commentOpening.toList.drop k <+: commentOpening.toList ∧
    ¬ oldCommentOpening.toList.drop k <+: commentOpening.toList := by decide +kernel

/-- A comment in a line that has begun without an opening is not found. -/
private theorem payload?_append_comment (hne : line ≠ []) (new : ¬ commentOpening.toList <+: line)
    (old : ¬ oldCommentOpening.toList <+: line) (m : SourceMap) : payload? (line ++ m.comment.toList) = none := by
  have length_eq : commentOpening.length = 21 := by decide +kernel
  have length_eq' : oldCommentOpening.length = 21 := by decide +kernel
  have not_new := not_opening_append hne new rfl (fun k hk hpos => (borders k (length_eq ▸ hk) hpos).1) m
  have not_old := not_opening_append hne old (length_eq'.trans length_eq.symm)
    (fun k hk hpos => (borders k (length_eq' ▸ hk) hpos).2) m
  rw [payload?, behind?_eq_none not_new, behind?_eq_none not_old]
  rfl

/-! ### Reading -/

/-- The map in a comment behind a text that ends a line is read as it was written. -/
theorem extract_append {text : String} {m' : SourceMap} (h : EndsLine text.toList)
    (accepted : decode m.encode.toUTF8.toList = .ok m') :
    extract (text ++ m.comment) = .ok (some (String.ofList (Text.dropEndWhile (· = '\n') text.toList), m')) := by
  have plain : Text.trim (Text.Base64.encode m.encode.toUTF8).toList = (Text.Base64.encode m.encode.toUTF8).toList :=
    Text.trim_eq fun c => Text.Base64.not_isBlank_of_mem_encode
  rw [extract, String.toList_append, lastLine_append]
  simp only [endsLine_iff.1 h, List.nil_append, payload?_comment, plain, String.ofList_toList, Text.Base64.decode_encode,
    accepted, h.dropEndWhile_eq]

/-- Behind a text that leaves a line open, a comment is no comment. -/
theorem extract_append_open {text : String} (h : ¬ EndsLine text.toList)
    (new : ¬ commentOpening.toList <+: openLine text.toList) (old : ¬ oldCommentOpening.toList <+: openLine text.toList)
    (m : SourceMap) : extract (text ++ m.comment) = .ok none := by
  rw [extract, String.toList_append, lastLine_append]
  simp only [payload?_append_comment (mt endsLine_iff.2 h) new old m]

end SourceMap

end ScriptBundler

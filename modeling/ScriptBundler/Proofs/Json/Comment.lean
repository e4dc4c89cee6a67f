import Mathlib.Data.List.Infix
import ScriptBundler.Json.Comment

/-!
# What is left when comments are taken out

Each character of a text stands in code, in a string or in a comment (`placed`). Taking comments out leaves the others
where they stand (`placed_withoutCommentsFrom`): code stays code and strings stay strings, no comment comes about, and
so a second time nothing is left to take out. A complete comment behind code can be left out beforehand
(`withoutCommentsFrom_append`, `withoutCommentsFrom_block`, `withoutCommentsFrom_line`). Only a slash in front of it
must not be there, since with the slash of the comment it would begin another one.
-/

namespace ScriptBundler.Json

variable {place : Place} {c : Char} {cs u v body : List Char}

def Place.isComment : Place → Bool
  | .code => false
  | .string => false
  | .lineComment => true
  | .blockComment _ => true

/-- The characters of a text that begins at the given place, each with the place where it stands. A quote that begins
a string stands in front of it, one that ends it stands inside. -/
def placed : Place → List Char → List (Char × Place)
  | _, [] => []
  | .code, '/' :: '/' :: cs => ('/', .lineComment) :: ('/', .lineComment) :: placed .lineComment cs
  | .code, '/' :: '*' :: cs => ('/', .blockComment false) :: ('*', .blockComment false) :: placed (.blockComment false) cs
  | .code, c :: cs => (c, .code) :: placed (if c = '\x22' then .string else .code) cs
  | .string, '\\' :: c :: cs => ('\\', .string) :: (c, .string) :: placed .string cs
  | .string, c :: cs => (c, .string) :: placed (if c = '\x22' then .code else .string) cs
  | .lineComment, c :: cs =>
    if c = '\n' then (c, .code) :: placed .code cs else (c, .lineComment) :: placed .lineComment cs
  | .blockComment afterStar, c :: cs =>
    (c, .blockComment afterStar) ::
      if afterStar ∧ c = '/' then placed .code cs else placed (.blockComment (c = '*')) cs

private theorem map_placed (place : Place) (cs : List Char) : (placed place cs).map (·.1) = cs := by
  fun_induction placed place cs with
  | case9 afterStar c cs ih ih' => split <;> simp_all
  | _ => simp_all

/-- The place behind a text that begins at the given place. -/
def placeBehind : Place → List Char → Place
  | place, [] => place
  | .code, '/' :: '/' :: cs => placeBehind .lineComment cs
  | .code, '/' :: '*' :: cs => placeBehind (.blockComment false) cs
  | .code, c :: cs => placeBehind (if c = '\x22' then .string else .code) cs
  | .string, '\\' :: _ :: cs => placeBehind .string cs
  | .string, c :: cs => placeBehind (if c = '\x22' then .code else .string) cs
  | .lineComment, c :: cs => if c = '\n' then placeBehind .code cs else placeBehind .lineComment cs
  | .blockComment afterStar, c :: cs =>
    if afterStar ∧ c = '/' then placeBehind .code cs else placeBehind (.blockComment (c = '*')) cs

/-! ### Single characters -/

/-- A character of code that begins no comment. -/
def StartsPlain (c : Char) (cs : List Char) : Prop := c = '/' → cs.head? ≠ some '/' ∧ cs.head? ≠ some '*'

private theorem withoutCommentsFrom_plain (h : StartsPlain c cs) :
    withoutCommentsFrom .code (c :: cs) = c :: withoutCommentsFrom (if c = '\x22' then .string else .code) cs := by
  rw [withoutCommentsFrom] <;> rintro rest rfl rfl <;> simp [StartsPlain] at h

private theorem placed_plain (h : StartsPlain c cs) :
    placed .code (c :: cs) = (c, .code) :: placed (if c = '\x22' then .string else .code) cs := by
  rw [placed] <;> rintro rest rfl rfl <;> simp [StartsPlain] at h

/-- A character of a string, but no backslash that escapes another one. -/
private theorem placed_string (h : ∀ d rest, c = '\\' → cs = d :: rest → False) :
    placed .string (c :: cs) = (c, .string) :: placed (if c = '\x22' then .code else .string) cs := by
  rw [placed]
  exact h

private theorem head?_withoutCommentsFrom (h : cs.head? ≠ some '/') :
    (withoutCommentsFrom .code cs).head? = cs.head? := by
  cases cs with
  | nil => rfl
  | cons c cs =>
    have plain : StartsPlain c cs := fun e => absurd (congrArg some e) h
    rw [withoutCommentsFrom_plain plain]
    rfl

/-- What follows a plain character does not come to begin a comment with it. -/
private theorem StartsPlain.withoutCommentsFrom (h : StartsPlain c cs) :
    StartsPlain c (withoutCommentsFrom (if c = '\x22' then .string else .code) cs) := by
  intro e
  obtain ⟨slash, star⟩ := h e
  rw [e, if_neg (by decide), head?_withoutCommentsFrom slash]
  exact ⟨slash, star⟩

/-! ### What is left -/

/-- The characters that stand in no comment. -/
def outside (cs : List (Char × Place)) : List (Char × Place) := cs.filter (!·.2.isComment)

private theorem outside_outside (cs : List (Char × Place)) : outside (outside cs) = outside cs := by
  rw [outside, outside, List.filter_filter]
  simp

@[simp] theorem outside_code (c : Char) (cs : List (Char × Place)) : outside ((c, .code) :: cs) = (c, .code) :: outside cs := rfl

@[simp] theorem outside_string (c : Char) (cs : List (Char × Place)) :
    outside ((c, .string) :: cs) = (c, .string) :: outside cs := rfl

@[simp] theorem outside_lineComment (c : Char) (cs : List (Char × Place)) :
    outside ((c, .lineComment) :: cs) = outside cs := rfl

@[simp] theorem outside_blockComment (c : Char) (afterStar : Bool) (cs : List (Char × Place)) :
    outside ((c, .blockComment afterStar) :: cs) = outside cs := rfl

private theorem startsPlain_iff : StartsPlain c cs ↔
    (∀ rest, c = '/' → cs = '/' :: rest → False) ∧ ∀ rest, c = '/' → cs = '*' :: rest → False := by
  cases cs <;> simp [StartsPlain, imp_and]

private theorem withoutCommentsFrom_eq (place : Place) (cs : List Char) :
    withoutCommentsFrom place cs = (outside (placed place cs)).map (·.1) := by
  fun_induction withoutCommentsFrom place cs with
  | case1 place => cases place <;> rfl
  | case2 cs ih | case3 cs ih => simpa [placed] using ih
  | case4 c cs noLine noBlock ih =>
    rw [placed_plain (startsPlain_iff.2 ⟨noLine, noBlock⟩), outside_code, List.map_cons, ← ih]
  | case5 c cs ih => simpa [placed] using ih
  | case6 c cs single ih =>
    rw [placed_string single, outside_string, List.map_cons, ← ih]
  | case7 cs ih => simpa [placed] using ih
  | case8 c cs other ih => simpa [placed, other] using ih
  | case9 afterStar c cs ends ih =>
    rw [placed, outside_blockComment, if_pos ends, ih]
  | case10 afterStar c cs goes ih =>
    rw [placed, outside_blockComment, if_neg goes, ih]

/-- Where a text goes on when the comment in which it begins is left out. -/
def Place.outside : Place → Place
  | .string => .string
  | _ => .code

/-- What is left stands where it stood. -/
theorem placed_withoutCommentsFrom (place : Place) (cs : List Char) :
    placed place.outside (withoutCommentsFrom place cs) = Json.outside (placed place cs) := by
  fun_induction withoutCommentsFrom place cs with
  | case1 place => cases place <;> rfl
  | case2 cs ih | case3 cs ih => simpa [placed, Place.outside] using ih
  | case4 c cs noLine noBlock ih =>
    have plain : StartsPlain c cs := startsPlain_iff.2 ⟨noLine, noBlock⟩
    rw [placed_plain plain, outside_code, ← ih]
    refine (placed_plain plain.withoutCommentsFrom).trans ?_
    split <;> rfl
  | case5 c cs ih => simpa [placed, Place.outside] using ih
  | case6 c cs single ih =>
    -- a backslash that escapes nothing stands at the end of the text
    have single' (d : Char) (rest : List Char) (e : c = '\\')
        (e' : withoutCommentsFrom (if c = '\x22' then .code else .string) cs = d :: rest) : False := by
      cases cs with
      | nil => cases e'
      | cons d rest => exact single d rest e rfl
    rw [placed_string single, outside_string, ← ih]
    refine (placed_string single').trans ?_
    split <;> rfl
  | case7 cs ih => simpa [placed, Place.outside] using ih
  | case8 c cs other ih => simpa [placed, other, Place.outside] using ih
  | case9 afterStar c cs ends ih =>
    rw [placed, outside_blockComment, if_pos ends, ← ih]
    rfl
  | case10 afterStar c cs goes ih =>
    rw [placed, outside_blockComment, if_neg goes, ← ih]
    rfl

/-! ### Comments that are left out beforehand -/

private theorem StartsPlain.append (h : StartsPlain c cs) (slash : cs = [] → c ≠ '/') (v : List Char) :
    StartsPlain c (cs ++ v) := by
  cases cs with
  | nil => exact fun e => absurd e (slash rfl)
  | cons d cs => exact h

private theorem slash_of_tail (h : (c :: cs).getLast? ≠ some '/') : cs.getLast? ≠ some '/' := by
  rw [List.getLast?_cons] at h
  cases e : cs.getLast? <;> simp_all

/-- A text behind code is read as code, unless the code ends with a slash. -/
theorem withoutCommentsFrom_append (code : placeBehind place u = .code) (slash : u.getLast? ≠ some '/') (v : List Char) :
    withoutCommentsFrom place (u ++ v) = withoutCommentsFrom place u ++ withoutCommentsFrom .code v := by
  fun_induction placeBehind place u with
  | case1 place =>
    rw [code]
    rfl
  | case2 cs ih | case3 cs ih => simpa [withoutCommentsFrom] using ih code (slash_of_tail (slash_of_tail slash))
  | case4 c cs noLine noBlock ih =>
    have plain : StartsPlain c cs := startsPlain_iff.2 ⟨noLine, noBlock⟩
    have last : cs = [] → c ≠ '/' := fun e same => slash (by rw [e, same]; rfl)
    rw [List.cons_append, withoutCommentsFrom_plain plain, withoutCommentsFrom_plain (plain.append last v),
      ih code (slash_of_tail slash), List.cons_append]
  | case5 d cs ih => simpa [withoutCommentsFrom] using ih code (slash_of_tail (slash_of_tail slash))
  | case6 c cs single ih =>
    have goes : ∀ d rest, c = '\\' → cs ++ v = d :: rest → False := by
      cases cs with
      | nil =>
        rintro d rest rfl -
        cases code
      | cons d cs => exact fun _ _ e _ => single d cs e rfl
    rw [List.cons_append, withoutCommentsFrom, withoutCommentsFrom, ih code (slash_of_tail slash), List.cons_append]
    · exact single
    · exact goes
  | case7 cs ih => simpa [withoutCommentsFrom] using ih code (slash_of_tail slash)
  | case8 c cs other ih => simpa [withoutCommentsFrom, other] using ih code (slash_of_tail slash)
  | case9 afterStar c cs ends ih =>
    rw [List.cons_append, withoutCommentsFrom, withoutCommentsFrom, if_pos ends, if_pos ends, ih code (slash_of_tail slash)]
  | case10 afterStar c cs goes ih =>
    rw [List.cons_append, withoutCommentsFrom, withoutCommentsFrom, if_neg goes, if_neg goes, ih code (slash_of_tail slash)]

/-- A block comment ends with the first star that a slash follows. -/
theorem withoutCommentsFrom_block {afterStar : Bool} (ends : ¬ ['*', '/'] <:+: body)
    (start : afterStar = true → body.head? ≠ some '/') (v : List Char) :
    withoutCommentsFrom (.blockComment afterStar) (body ++ '*' :: '/' :: v) = withoutCommentsFrom .code v := by
  induction body generalizing afterStar with
  | nil => simp [withoutCommentsFrom]
  | cons c body ih =>
    have goes : ¬ (afterStar = true ∧ c = '/') := fun ⟨star, e⟩ => start star (by rw [e]; rfl)
    rw [List.cons_append, withoutCommentsFrom, if_neg goes]
    refine ih (fun h => ends (h.trans (List.suffix_cons c body).isInfix)) fun star e => ends ?_
    obtain ⟨rest, rfl⟩ : ∃ rest, body = '/' :: rest := List.head?_eq_some_iff.1 e
    rw [of_decide_eq_true star]
    exact ⟨[], rest, rfl⟩

/-- A line comment ends with the line. -/
theorem withoutCommentsFrom_line (line : '\n' ∉ body) (h : v = [] ∨ v.head? = some '\n') :
    withoutCommentsFrom .lineComment (body ++ v) = withoutCommentsFrom .code v := by
  induction body with
  | nil =>
    rcases h with rfl | h
    · rfl
    · obtain ⟨rest, rfl⟩ : ∃ rest, v = '\n' :: rest := List.head?_eq_some_iff.1 h
      simp [withoutCommentsFrom]
  | cons c body ih =>
    rw [List.mem_cons, not_or] at line
    rw [List.cons_append, withoutCommentsFrom, if_neg (Ne.symm line.1), ih line.2]

/-- A whole block comment: nothing inside it ends it. -/
def IsBlockComment (c : List Char) : Prop := ∃ body, c = '/' :: '*' :: body ++ ['*', '/'] ∧ ¬ ['*', '/'] <:+: body

/-- A whole line comment, without the end of the line. -/
def IsLineComment (c : List Char) : Prop := ∃ body, c = '/' :: '/' :: body ∧ '\n' ∉ body

/-- A text is taken to the same whether a comment stands in front of it or not. -/
private theorem withoutCommentsFrom_comment {comment : List Char}
    (h : IsBlockComment comment ∨ IsLineComment comment ∧ (v = [] ∨ v.head? = some '\n')) :
    withoutCommentsFrom .code (comment ++ v) = withoutCommentsFrom .code v := by
  rcases h with ⟨body, rfl, ends⟩ | ⟨⟨body, rfl, line⟩, hv⟩
  · simpa [withoutCommentsFrom] using withoutCommentsFrom_block ends (show false = true → _ from nofun) v
  · simpa [withoutCommentsFrom] using withoutCommentsFrom_line line hv

/-- Taking out comments a second time changes nothing, a comment behind code may be left out beforehand, and what is left
stands where it stood: in code or in the same string. -/
theorem withoutComments_laws :
    (∀ text, withoutComments (withoutComments text) = withoutComments text) ∧
    (∀ u v comment : String, placeBehind .code u.toList = .code → u.toList.getLast? ≠ some '/' →
      (IsBlockComment comment.toList ∨ IsLineComment comment.toList ∧ (v = "" ∨ v.toList.head? = some '\n')) →
      withoutComments (u ++ comment ++ v) = withoutComments (u ++ v)) ∧
    ∀ text, (placed .code text.toList).map (·.1) = text.toList ∧
      placed .code (withoutComments text).toList = outside (placed .code text.toList) := by
  have stays (text : String) : placed .code (withoutComments text).toList = outside (placed .code text.toList) := by
    rw [withoutComments, String.toList_ofList]
    exact placed_withoutCommentsFrom .code text.toList
  refine ⟨fun text => ?_, fun u v comment code slash whole => ?_,
    fun text => ⟨map_placed .code text.toList, stays text⟩⟩
  · have again : withoutCommentsFrom .code (withoutComments text).toList = withoutCommentsFrom .code text.toList := by
      rw [withoutCommentsFrom_eq, stays, outside_outside, ← withoutCommentsFrom_eq]
    rw [withoutComments, again]
    rfl
  · have whole' : IsBlockComment comment.toList ∨
        IsLineComment comment.toList ∧ (v.toList = [] ∨ v.toList.head? = some '\n') := by
      rwa [String.toList_eq_nil_iff]
    simp only [withoutComments, String.toList_append, List.append_assoc]
    rw [withoutCommentsFrom_append code slash, withoutCommentsFrom_append code slash, withoutCommentsFrom_comment whole']

/-- A comment behind a string in which there is what looks like one. -/
theorem withoutComments_laws_quoted :
    placeBehind .code "\"//\" ".toList = .code ∧ "\"//\" ".toList.getLast? ≠ some '/' ∧ IsBlockComment "/*/*/".toList ∧
    withoutComments ("\"//\" " ++ "/*/*/" ++ "/") = withoutComments ("\"//\" " ++ "/") := by
  have code : placeBehind .code "\"//\" ".toList = .code := by decide
  have slash : "\"//\" ".toList.getLast? ≠ some '/' := by decide
  have whole : IsBlockComment "/*/*/".toList := ⟨['/'], by decide, by decide⟩
  exact ⟨code, slash, whole, withoutComments_laws.2.1 _ _ _ code slash (.inl whole)⟩

end ScriptBundler.Json

import ScriptBundler.Proofs.Path.Clean
import ScriptBundler.Proofs.Trace.Resolve

/-!
# Relative requests

A request is relative if its first piece is a dot or two dots. It is read from the directory of the script, and neither
aliases nor packages have a part in it, if it goes on behind this piece (`isPathRequest_iff`). The dots alone are taken for
the name of a package: `Resolver.resolve_relative_iff` says that these two are the only exceptions.
-/

namespace ScriptBundler

variable {request : String}

/-- A request that begins at the directory of the script or at the one above it. -/
def IsRelative (request : String) : Prop :=
  (Path.pieces request.toList).head? = some ['.'] ∨ (Path.pieces request.toList).head? = some ['.', '.']

instance : DecidablePred IsRelative := fun _ => inferInstanceAs (Decidable (_ ∨ _))

/-- A text is its first piece, or goes on behind it with a slash. -/
private theorem Path.eq_or_append_of_head?_pieces {piece cs : List Char} (h : (pieces cs).head? = some piece) :
    cs = piece ∨ ∃ rest, cs = piece ++ '/' :: rest := by
  induction cs generalizing piece with
  | nil =>
    rw [pieces, List.head?_cons, Option.some_inj] at h
    exact .inl h
  | cons c cs ih =>
    by_cases hc : c = '/'
    · rw [pieces, if_pos hc, List.head?_cons, Option.some_inj] at h
      exact .inr ⟨cs, by rw [← h, hc, List.nil_append]⟩
    · obtain ⟨first, rest, e, k⟩ := pieces_cons_of_ne hc cs
      rw [k, List.head?_cons, Option.some_inj] at h
      rw [← h]
      rcases ih (by rw [e, List.head?_cons]) with e | ⟨tail, e⟩
      · exact .inl (congrArg (c :: ·) e)
      · exact .inr ⟨tail, congrArg (c :: ·) e⟩

/-- Relative requests are paths, but for the dots alone. -/
theorem isPathRequest_iff (relative : IsRelative request) :
    isPathRequest request = true ↔ request ≠ "." ∧ request ≠ ".." := by
  rcases relative with h | h
  all_goals
    rcases Path.eq_or_append_of_head?_pieces h with e | ⟨rest, e⟩
  · obtain rfl : request = "." := String.toList_inj.1 e
    exact iff_of_false (by decide +kernel) (by simp)
  · refine iff_of_true (by simp [isPathRequest, String.startsWith_string_iff, e]) ⟨?_, ?_⟩
    all_goals
      rintro rfl
      simp at e
  · obtain rfl : request = ".." := String.toList_inj.1 e
    exact iff_of_false (by decide +kernel) (by simp)
  · refine iff_of_true (by simp [isPathRequest, String.startsWith_string_iff, e]) ⟨?_, ?_⟩
    all_goals
      rintro rfl
      simp at e

namespace Resolver

/-- A project with a script and an index file below the root, and at the root a manifest beside an index file. -/
def home : Disk where
  workingDirectory := []
  nodes := [(["package.json"], .file "\x7b\"main\":\"main.js\"\x7d".toUTF8 0), (["main.js"], .file .empty 0),
    (["index.js"], .file .empty 0), (["node_modules"], .directory 0), (["src"], .directory 0),
    (["src", "a.js"], .file .empty 0), (["src", "index.js"], .file .empty 0)]

private theorem resolve_home_dot : ((of ⟨"/"⟩ []).resolve home ⟨"/src/a.js"⟩ "." []).1 = none := by
  rw [← Option.isNone_iff_eq_none]
  decide +kernel

private theorem resolve_home_dots : ((of ⟨"/"⟩ []).resolve home ⟨"/src/a.js"⟩ ".." []).1 = some ⟨"/main.js"⟩ := by
  rw [Path.eq_some_iff]
  decide +kernel

private theorem resolveFile_home : resolveFile home ((⟨"/src"⟩ : Path).join ⟨"."⟩).clean = some ⟨"/src/index.js"⟩ ∧
    resolveFile home ((⟨"/src"⟩ : Path).join ⟨".."⟩).clean = some ⟨"/index.js"⟩ := by
  rw [Path.eq_some_iff, Path.eq_some_iff]
  decide +kernel

/-- A relative request is read from the directory of the script, with any aliases and packages, if and only if it is not
the dots alone. These are resolved as a name. -/
theorem resolve_relative_iff (relative : IsRelative request) :
    ((∀ (r : Resolver) (d : Disk) (script : Path), (r.resolve d script request []).1 =
      resolveFile d ((script.parent?.getD r.root).join ⟨request⟩).clean) ↔ request ≠ "." ∧ request ≠ "..") ∧
    (request = "." ∨ request = ".." → ∀ (r : Resolver) (d : Disk) (script : Path), (r.resolve d script request []).1 =
      (r.findAlias d request).or (r.findPackage d (script.parent?.getD r.root) request)) := by
  have kind := isPathRequest_iff relative
  refine ⟨⟨fun everywhere => ?_, fun longer r d script => ?_⟩, fun alone r d script => ?_⟩
  · have here := everywhere (of ⟨"/"⟩ []) home ⟨"/src/a.js"⟩
    have own : (⟨"/src/a.js"⟩ : Path).parent? = some ⟨"/src"⟩ := by
      rw [Path.eq_some_iff]
      decide +kernel
    rw [own, Option.getD_some] at here
    constructor
    · rintro rfl
      exact absurd (resolve_home_dot.symm.trans (here.trans resolveFile_home.1)) nofun
    · rintro rfl
      have same := resolve_home_dots.symm.trans (here.trans resolveFile_home.2)
      exact absurd (Path.eq_some_iff.1 same) (by decide)
  · rw [resolve_eq_find rfl]
    exact if_pos (kind.2 longer)
  · have bare : isPathRequest request = false := by
      rw [← Bool.not_eq_true, kind]
      rintro ⟨dot, dots⟩
      exact alone.elim dot dots
    rw [resolve_eq_find rfl, find_eq_of_bare bare]

/-- An alias with the name of the first piece has no part in it. -/
theorem resolve_relative_home : IsRelative "../index" ∧
    ((of ⟨"/"⟩ [("..", ["/src"])]).resolve home ⟨"/src/a.js"⟩ "../index" []).1 = some ⟨"/index.js"⟩ := by
  have relative : IsRelative "../index" := by decide
  have read := (resolve_relative_iff relative).1.2 (by decide) (of ⟨"/"⟩ [("..", ["/src"])]) home ⟨"/src/a.js"⟩
  refine ⟨relative, read.trans (Path.eq_some_iff.2 ?_)⟩
  decide +kernel

/-- The directory of the script is not found, and in the place of the one above it the manifest of the project. -/
theorem resolve_dots_astray : IsRelative "." ∧ IsRelative ".." ∧
    ((of ⟨"/"⟩ []).resolve home ⟨"/src/a.js"⟩ "." []).1 = none ∧
    resolveFile home ((⟨"/src"⟩ : Path).join ⟨"."⟩).clean = some ⟨"/src/index.js"⟩ ∧
    ((of ⟨"/"⟩ []).resolve home ⟨"/src/a.js"⟩ ".." []).1 = some ⟨"/main.js"⟩ ∧
    resolveFile home ((⟨"/src"⟩ : Path).join ⟨".."⟩).clean = some ⟨"/index.js"⟩ :=
  ⟨by decide, by decide, resolve_home_dot, resolveFile_home.1, resolve_home_dots, resolveFile_home.2⟩

end Resolver

end ScriptBundler

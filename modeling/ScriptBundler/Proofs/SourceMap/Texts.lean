import Mathlib
import ScriptBundler.Proofs.SourceMap.Marks

/-!
# The texts of sources

A combined map keeps one text for each name of a source, and it is the one that was given last under this name
(`Builder.Keeps`). So a token of a file leads to the source that its own map names, but to the text of whichever file,
the last one, gave a text under this name (`combined_texts`): two maps that disagree on the text of a source are not told
apart (`combined_loses_text`).
-/

namespace ScriptBundler.SourceMap

variable {name : String} {given given' : List (String × Option String)} {b : Builder}

/-- The sources of a map with their texts. -/
def texts (m : SourceMap) : List (String × Option String) := m.sourceNames.zipIdx.map fun s => (s.1, m.content? s.2)

/-- The text to which a token of a map leads. -/
def text? (m : SourceMap) (t : Token) : Option String := t.source.bind m.content?

/-- The text that is given last under a name. -/
def lastText (name : String) (given : List (String × Option String)) : Option String :=
  given.reverse.findSome? fun g => if g.1 = name then g.2 else none

private theorem lastText_append : lastText name (given ++ given') = (lastText name given').or (lastText name given) := by
  simp [lastText, List.reverse_append, List.findSome?_append]

private theorem lastText_concat_self (name text : String) :
    lastText name (given ++ [(name, some text)]) = some text := by
  simp [lastText]

private theorem lastText_concat_none (source : String) :
    lastText name (given ++ [(source, none)]) = lastText name given := by
  simp [lastText]

private theorem lastText_concat_of_ne {source : String} (h : source ≠ name) (text : Option String) :
    lastText name (given ++ [(source, text)]) = lastText name given := by
  simp [lastText, h]

private theorem lastText_eq_none (h : ∀ g ∈ given, g.1 ≠ name) : lastText name given = none := by
  rw [lastText, List.findSome?_eq_none_iff]
  intro g hg
  rw [if_neg (h g (List.mem_reverse.1 hg))]

/-- A text that is given under a name is the last one if no other is. -/
private theorem lastText_of_sole {text : String} (h : (name, some text) ∈ given)
    (sole : ∀ other, (name, some other) ∈ given → other = text) : lastText name given = some text := by
  cases found : lastText name given with
  | none =>
    have absent := List.findSome?_eq_none_iff.1 found (name, some text) (List.mem_reverse.2 h)
    simp at absent
  | some other =>
    obtain ⟨g, hg, e⟩ := List.exists_of_findSome?_eq_some found
    split at e
    · rename_i named
      rw [sole other]
      rw [← named, ← e]
      exact List.mem_reverse.1 hg
    · cases e

private theorem mem_texts {m : SourceMap} {i : Nat} (h : m.sourceNames[i]? = some name) :
    (name, m.content? i) ∈ m.texts :=
  List.mem_map.2 ⟨(name, i), List.mk_mem_zipIdx_iff_getElem?.2 h, rfl⟩

/-! ### Names are kept once -/

private theorem mem_intern {table : List String} {text other : String} :
    other ∈ (intern table text).2 ↔ other ∈ table ∨ other = text := by
  unfold intern
  split
  · rename_i i h
    obtain ⟨hi, e, -⟩ := List.findIdx?_eq_some_iff_getElem.1 h
    have there : text ∈ table := by
      rw [← of_decide_eq_true e]
      exact List.getElem_mem hi
    exact ⟨.inl, fun h => h.elim id fun e => e ▸ there⟩
  · simp

private theorem nodup_intern {table : List String} (h : table.Nodup) (text : String) : (intern table text).2.Nodup := by
  unfold intern
  split
  · exact h
  · rename_i new
    have fresh : text ∉ table := by
      intro there
      have apart := List.findIdx?_eq_none_iff.1 new text there
      simp at apart
    rw [List.nodup_append]
    refine ⟨h, List.nodup_singleton _, fun a ha c hc => ?_⟩
    rw [List.mem_singleton] at hc
    rintro rfl
    exact fresh (hc ▸ ha)

namespace Builder

/-- Adds a source with its text. -/
def give (b : Builder) (source : String) (text : Option String) : Builder :=
  match text with
  | some t => (b.addSource source).2.setContent (b.addSource source).1 t
  | none => (b.addSource source).2

private theorem addSources_cons (source : String) (text : Option String) (rest : List (String × Option String)) :
    (b.addSources ((source, text) :: rest)).2 = ((b.give source text).addSources rest).2 := by
  cases text <;> rfl

private theorem give_sourceTable (b : Builder) (source : String) (text : Option String) :
    (b.give source text).sourceTable = (intern b.sourceTable source).2 := by
  rw [← addSource_eq_intern]
  cases text with
  | none => rfl
  | some t => exact setContent_sourceTable ..

private theorem sources_give_of_new {source : String} (new : source ∉ b.sourceTable) (text : Option String) :
    (b.give source text).sources = b.sources ++ [(source, text)] := by
  have found : b.sources.findIdx? (·.1 = source) = none := by
    rw [List.findIdx?_eq_none_iff]
    intro s hs
    have apart : s.1 ≠ source := fun e => new (List.mem_map.2 ⟨s, hs, e⟩)
    simpa using apart
  cases text with
  | none => simp [give, addSource, found]
  | some t =>
    simp only [give, addSource, setContent, found]
    rw [List.modify_eq_take_cons_drop (by simp)]
    simp

private theorem exists_sources_give {source : String} (known : source ∈ b.sourceTable) :
    ∃ i, b.sourceTable[i]? = some source ∧ (b.give source none).sources = b.sources ∧
    ∀ t, (b.give source (some t)).sources = b.sources.modify i fun s => (s.1, some t) := by
  cases found : b.sources.findIdx? (·.1 = source) with
  | none =>
    obtain ⟨s, hs, e⟩ := List.mem_map.1 known
    have apart := List.findIdx?_eq_none_iff.1 found s hs
    simp [e] at apart
  | some i =>
    refine ⟨i, ?_, by simp [give, addSource, found], fun t => by simp [give, addSource, setContent, found]⟩
    obtain ⟨hi, e, -⟩ := List.findIdx?_eq_some_iff_getElem.1 found
    rw [sourceTable, List.getElem?_map, List.getElem?_eq_getElem hi, Option.map_some, of_decide_eq_true e]

/-- What is kept after a source has been added: of other sources what was kept before, and of this one the text that it
comes with, or the old one if it comes without. -/
private theorem mem_give {source : String} {text : Option String} {s : String × Option String} (h : b.sourceTable.Nodup)
    (hs : s ∈ (b.give source text).sources) : (s ∈ b.sources ∧ (s.1 = source → text = none)) ∨
      (s = (source, text) ∧ (text = none → source ∉ b.sourceTable)) := by
  by_cases known : source ∈ b.sourceTable
  · obtain ⟨i, named, without, with_text⟩ := exists_sources_give known
    cases text with
    | none => exact .inl ⟨without ▸ hs, fun _ => rfl⟩
    | some t =>
      rw [with_text] at hs
      obtain ⟨j, hj⟩ := List.getElem?_of_mem hs
      rw [List.getElem?_modify] at hj
      obtain ⟨old, hold, e⟩ := Option.map_eq_some_iff.1 hj
      have old_named : b.sourceTable[j]? = some old.1 := by rw [sourceTable, List.getElem?_map, hold, Option.map_some]
      split at e
      · rename_i same
        rw [← same, named, Option.some_inj] at old_named
        exact .inr ⟨by rw [← e, old_named], fun absent => absurd absent (Option.some_ne_none t)⟩
      · rename_i apart
        subst e
        -- names are kept once, so this one is another
        refine .inl ⟨List.mem_of_getElem? hold, fun e => absurd ?_ apart⟩
        have hi : i < b.sourceTable.length := (List.getElem?_eq_some_iff.1 named).1
        refine (List.getElem?_inj hi h).1 ?_
        rw [named, old_named, ← e]
  · rw [sources_give_of_new known, List.mem_append, List.mem_singleton] at hs
    rcases hs with hs | rfl
    · exact .inl ⟨hs, fun e => absurd (List.mem_map.2 ⟨s, hs, e⟩) known⟩
    · exact .inr ⟨rfl, fun _ => known⟩

/-- The names that have been given are kept once each, with the text that was given last. -/
structure Keeps (b : Builder) (given : List (String × Option String)) : Prop where
  distinct : b.sourceTable.Nodup
  known : ∀ g ∈ given, g.1 ∈ b.sourceTable
  last : ∀ s ∈ b.sources, s.2 = lastText s.1 given

private theorem keeps_empty : Keeps {} [] where
  distinct := List.nodup_nil
  known := nofun
  last := nofun

private theorem Keeps.give (h : b.Keeps given) (source : String) (text : Option String) :
    (b.give source text).Keeps (given ++ [(source, text)]) where
  distinct := give_sourceTable b source text ▸ nodup_intern h.distinct source
  known g hg := by
    rw [give_sourceTable, mem_intern]
    rcases List.mem_append.1 hg with hg | hg
    · exact .inl (h.known g hg)
    · rw [List.mem_singleton.1 hg]
      exact .inr rfl
  last s hs := by
    rcases mem_give h.distinct hs with ⟨hs, only⟩ | ⟨rfl, new⟩
    · rw [h.last s hs]
      by_cases same : source = s.1
      · rw [only same.symm, lastText_concat_none]
      · rw [lastText_concat_of_ne same]
    · cases text with
      | none =>
        -- nothing was given under a name that is not in the table
        have unknown : lastText source given = none := by
          refine lastText_eq_none fun g hg e => new rfl ?_
          rw [← e]
          exact h.known g hg
        rw [lastText_concat_none, unknown]
      | some t => rw [lastText_concat_self]

private theorem Keeps.addSources (h : b.Keeps given) : (b.addSources given').2.Keeps (given ++ given') := by
  induction given' generalizing b given with
  | nil => rwa [List.append_nil]
  | cons g given' ih =>
    rcases g with ⟨source, text⟩
    rw [addSources_cons, ← List.singleton_append, ← List.append_assoc]
    exact ih (h.give source text)

private theorem Keeps.addMap (h : b.Keeps given) (m : SourceMap) (offset : Nat) :
    (b.addMap m offset).Keeps (given ++ m.texts) := by
  have sources_eq : (b.addMap m offset).sources = (b.addSources m.texts).2.sources := addNames_sources ..
  have kept : (b.addSources m.texts).2.Keeps (given ++ m.texts) := h.addSources
  have table_eq : (b.addMap m offset).sourceTable = (b.addSources m.texts).2.sourceTable := by
    rw [sourceTable, sources_eq]
    rfl
  exact ⟨table_eq ▸ kept.distinct, table_eq ▸ kept.known, sources_eq ▸ kept.last⟩

/-- The text of a source depends on its name only. -/
private theorem Keeps.content?_finish (h : b.Keeps given) (i : Nat) :
    b.finish.content? i = (b.sourceTable[i]?).bind (lastText · given) := by
  show ((b.sources.map (·.2))[i]?).join = _
  rw [sourceTable, List.getElem?_map, List.getElem?_map]
  cases hi : b.sources[i]? with
  | none => rfl
  | some source => exact h.last source (List.mem_of_getElem? hi)

private theorem sourceTable_addMap (b : Builder) (m : SourceMap) (offset : Nat) :
    b.sourceTable <+: (b.addMap m offset).sourceTable := by
  have sources_eq : (b.addMap m offset).sourceTable = (b.addSources m.texts).2.sourceTable :=
    congrArg (·.map (·.1)) (addNames_sources ..)
  have table_eq : (b.addSources m.texts).2.sourceTable = _ := congrArg Prod.snd (b.addSources_eq_internAll m.texts)
  rw [sources_eq, table_eq]
  exact internAll_extends ..

/-- The tokens of a map come behind those that are there, which say what they said before. -/
private theorem exists_tokens_addMap (h : b.Tidy) (m : SourceMap) (offset : Nat) :
    ∃ part, (b.addMap m offset).tokens = b.tokens ++ part ∧
      (∀ u ∈ b.tokens, u.mark (b.addMap m offset).sourceTable (b.addMap m offset).names = u.mark b.sourceTable b.names) ∧
      part.map (Token.mark (b.addMap m offset).sourceTable (b.addMap m offset).names) = m.marks.map (·.lower offset) := by
  obtain ⟨sources, names, tokens_eq⟩ := b.addMap_tokens m offset
  have marks_eq := marks_addMap h m offset
  unfold marks at marks_eq
  rw [tokens_eq, List.map_append] at marks_eq
  obtain ⟨old, new⟩ := List.append_inj marks_eq (by rw [List.length_map, List.length_map])
  exact ⟨_, tokens_eq, List.map_inj_left.1 old, new⟩

end Builder

/-! ### Combined maps -/

/-- Maps put together, each with the line on which its text starts. -/
def Combined.ofMaps (files : List (SourceMap × Nat)) : Combined := files.foldl (fun c f => c.addFile f.1 f.2) {}

namespace Combined

variable {files : List (SourceMap × Nat)}

private theorem ofMaps_concat (files : List (SourceMap × Nat)) (f : SourceMap × Nat) :
    (ofMaps (files ++ [f])).builder = (ofMaps files).builder.addMap f.1 f.2 := by
  rw [ofMaps, List.foldl_append]
  rfl

private theorem ofMaps_tidy (files : List (SourceMap × Nat)) : (ofMaps files).builder.Tidy := by
  induction files using List.reverseRecOn with
  | nil => exact Builder.tidy_empty
  | append_singleton files f ih =>
    rw [ofMaps_concat]
    exact ih.addMap f.1 f.2

private theorem ofMaps_keeps (files : List (SourceMap × Nat)) :
    (ofMaps files).builder.Keeps (files.flatMap (·.1.texts)) := by
  induction files using List.reverseRecOn with
  | nil => exact Builder.keeps_empty
  | append_singleton files f ih =>
    rw [ofMaps_concat, List.flatMap_append, List.flatMap_singleton]
    exact ih.addMap f.1 f.2

/-- The tokens of a combined map come file by file, and say what they said in their own map, on lower lines. -/
private theorem exists_parts (files : List (SourceMap × Nat)) : ∃ parts, (ofMaps files).builder.tokens = parts.flatten ∧
    List.Forall₂ (fun f part => part.map (Token.mark (ofMaps files).builder.sourceTable (ofMaps files).builder.names) =
      f.1.marks.map (·.lower f.2)) files parts := by
  induction files using List.reverseRecOn with
  | nil => exact ⟨[], rfl, .nil⟩
  | append_singleton files f ih =>
    obtain ⟨parts, tokens_eq, said⟩ := ih
    obtain ⟨part, added, old, new⟩ := Builder.exists_tokens_addMap (ofMaps_tidy files) f.1 f.2
    rw [ofMaps_concat]
    refine ⟨parts ++ [part], ?_, List.rel_append ?_ (.cons new .nil)⟩
    · rw [added, tokens_eq, List.flatten_append, List.flatten_singleton]
    · rw [List.forall₂_iff_zip] at said ⊢
      refine ⟨said.1, fun {g p} hp => ?_⟩
      have mem : p ∈ parts := (List.of_mem_zip hp).2
      rw [← said.2 hp]
      exact List.map_congr_left fun u hu => old u (tokens_eq ▸ List.mem_flatten_of_mem mem hu)

/-- What becomes of the text of a token: it is the one that was given last under the name of the source, hence its own
if no other is given under this name. -/
private theorem text?_finish {f : SourceMap × Nat} {t u : Token} (hf : f ∈ files)
    (said : u.mark (ofMaps files).builder.sourceTable (ofMaps files).builder.names =
      (t.mark f.1.sourceNames f.1.names).lower f.2) (named : t.source.bind (f.1.sourceNames[·]?) = some name) :
    (ofMaps files).finish.text? u = lastText name (files.flatMap (·.1.texts)) ∧ ∀ text, f.1.text? t = some text →
      (∀ other, (name, some other) ∈ files.flatMap (·.1.texts) → other = text) →
        (ofMaps files).finish.text? u = some text := by
  have leads : (ofMaps files).finish.text? u = lastText name (files.flatMap (·.1.texts)) := by
    have source_eq : u.source.bind ((ofMaps files).builder.sourceTable[·]?) = some name :=
      (congrArg Mark.source said).trans named
    obtain ⟨j, hj, at_j⟩ := Option.bind_eq_some_iff.1 source_eq
    rw [text?, hj, Option.bind_some, Combined.finish, (ofMaps_keeps files).content?_finish, at_j, Option.bind_some]
  refine ⟨leads, fun text own sole => ?_⟩
  obtain ⟨i, hi, at_i⟩ := Option.bind_eq_some_iff.1 own
  rw [hi, Option.bind_some] at named
  have there : (name, some text) ∈ files.flatMap (·.1.texts) :=
    List.mem_flatMap.2 ⟨f, hf, at_i ▸ mem_texts named⟩
  rw [leads, lastText_of_sole there sole]

/-- A later map leaves the sources where they are, and gives those that it has a text for the new text. -/
private theorem content?_finish_concat {i : Nat} (f : SourceMap × Nat)
    (h : (ofMaps files).finish.sourceNames[i]? = some name) :
    (ofMaps (files ++ [f])).finish.sourceNames[i]? = some name ∧ (ofMaps (files ++ [f])).finish.content? i =
      (lastText name f.1.texts).or ((ofMaps files).finish.content? i) := by
  have stays : (ofMaps (files ++ [f])).builder.sourceTable[i]? = some name := by
    rw [ofMaps_concat, ← h]
    exact getElem?_of_prefix (Builder.sourceTable_addMap ..) (List.getElem?_eq_some_iff.1 h).1
  refine ⟨stays, ?_⟩
  have before := (ofMaps_keeps files).content?_finish i
  have after := (ofMaps_keeps (files ++ [f])).content?_finish i
  rw [show (ofMaps files).builder.sourceTable[i]? = some name from h, Option.bind_some] at before
  rw [stays, Option.bind_some, List.flatMap_append, List.flatMap_singleton, lastText_append] at after
  exact after.trans (congrArg _ before.symm)

end Combined

/-- Each token of a file comes back in the combined map, on a lower line and otherwise unchanged. It leads to the text
that was given last under the name of its source: to its own if no file gives another one under this name. A later file
keeps the sources, but overwrites their texts with its own. -/
theorem combined_texts (files : List (SourceMap × Nat)) :
    let m := (Combined.ofMaps files).finish
    let given := files.flatMap (·.1.texts)
    (∃ parts, m.tokens = sortTokens parts.flatten ∧ List.Forall₂ (fun f part => List.Forall₂ (fun t u =>
      u.mark m.sourceNames m.names = (t.mark f.1.sourceNames f.1.names).lower f.2 ∧
      ∀ name, t.source.bind (f.1.sourceNames[·]?) = some name → m.text? u = lastText name given ∧
        ∀ text, f.1.text? t = some text → (∀ other, (name, some other) ∈ given → other = text) →
          m.text? u = some text) f.1.tokens part) files parts) ∧
    ∀ f i name, m.sourceNames[i]? = some name →
      (Combined.ofMaps (files ++ [f])).finish.sourceNames[i]? = some name ∧
      (Combined.ofMaps (files ++ [f])).finish.content? i = (lastText name f.1.texts).or (m.content? i) := by
  refine ⟨?_, fun f i name => Combined.content?_finish_concat f⟩
  obtain ⟨parts, tokens_eq, said⟩ := Combined.exists_parts files
  refine ⟨parts, congrArg sortTokens tokens_eq, ?_⟩
  rw [List.forall₂_iff_zip] at said ⊢
  refine ⟨said.1, fun {f part} hf => ?_⟩
  have marks_eq := said.2 hf
  rw [marks, List.map_map, ← List.forall₂_eq_eq_eq, List.forall₂_map_left_iff, List.forall₂_map_right_iff] at marks_eq
  exact marks_eq.flip.imp fun t u e => ⟨e, fun name => Combined.text?_finish (List.of_mem_zip hf).1 e⟩

/-- Two maps that give `x` different texts: the token of the first one leads to the text of the second one. -/
theorem combined_loses_text :
    let first := identity "x" "1"
    let second := identity "x" "2"
    first.tokens.map first.text? = [some "1"] ∧
    (Combined.ofMaps [(first, 0)]).finish.tokens.map (Combined.ofMaps [(first, 0)]).finish.text? = [some "1"] ∧
    (Combined.ofMaps [(first, 0), (second, 1)]).finish.tokens.map
      (Combined.ofMaps [(first, 0), (second, 1)]).finish.text? = [some "2", some "2"] := by
  intro first second
  refine ⟨?_, ?_, ?_⟩ <;> cbv

end ScriptBundler.SourceMap

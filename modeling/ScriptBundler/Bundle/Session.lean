import ScriptBundler.Bundle.Stream

/-!
# Sessions

A session is a bundle and the world it lives in, and takes one request after the other. The world may be changed
between requests, and a request that fails leaves the bundle as it was.

* `Session.step` answers one request, `Session.run` many;
* only `Request.refresh` can change the bundle.
-/

namespace ScriptBundler

/-- What is asked of a bundle, or done to its world. -/
inductive Request (σ : Type) where
  /-- The partition is to be found anew. -/
  | refresh
  | compile (paths : Option (List Path))
  | compileOutput (paths : Option (List Path))
  | compileCommon
  | compileOne (p : Path)
  | destinations (p : Path)
  | stream (s : FileStream) (files : List FileObject)
  /-- Files are sent through the stream of the watcher, which is asked only if the condition does not forbid it. -/
  | watch (condition : Option Bool) (callback : Path → Action σ Unit) (files : List FileObject)
  /-- The world changes. -/
  | change (f : σ → σ)

/-- An answer of a session. -/
inductive Reply where
  | done
  | text (s : String)
  | output (c : Compiled)
  | paths (ps : List Path)
  | files (fs : List FileObject)
  deriving Inhabited

/-- A bundle and its world. -/
structure Session (σ : Type) where
  world : σ
  bundle : Bundle

namespace Session

variable {σ : Type}

/-- What a request that leaves the bundle alone answers. -/
def answer (c : Collaborators σ) (b : Bundle) : Request σ → Action σ Reply
  | .refresh => return .done
  | .compile paths => return .text (← b.compile c paths)
  | .compileOutput paths => return .output (← b.compileOutput c paths)
  | .compileCommon => return .text (← b.compileCommon c)
  | .compileOne p => return .text (← b.compileOne c p)
  | .destinations p => return .paths (← b.destinations c p)
  | .stream s files => return .files (← s.pipe c b files)
  | .watch condition callback files => do
    let s ← match condition with
      | some holds => b.watchIf c holds callback
      | none => b.watch c callback
    return .files (← s.pipe c b files)
  | .change f => do
    modify f
    return .done

/-- Answers a request. -/
def step (c : Collaborators σ) (s : Session σ) : Request σ → Attempted Reply × Session σ
  | .refresh => match s.bundle.refresh c s.world with
    | (.ok bundle, world) => (.ok .done, ⟨world, bundle⟩)
    | (.error f, world) => (.error f, { s with world })
  | r => let (reply, world) := answer c s.bundle r s.world
    (reply, { s with world })

/-- The session after requests. -/
def run (c : Collaborators σ) (s : Session σ) (rs : List (Request σ)) : Session σ :=
  rs.foldl (fun s r => (s.step c r).2) s

end Session

end ScriptBundler

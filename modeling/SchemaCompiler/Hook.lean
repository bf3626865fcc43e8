import SchemaCompiler.Error
import SchemaCompiler.Misuse
import SchemaCompiler.Model.Declaration
import SchemaCompiler.Text.Pattern

/-! Hooks around a compilation. One before it sees the source model and answers the model to
compile; one after it sees the name and the text of a module and answers the text to keep. Hooks run
in the order in which they were added. A runner of hooks allows for hooks that fail. -/

namespace SchemaCompiler

structure Hook where
  name : String
  preGenerate : Option (SourceModel → SourceModel) := none
  postGenerate : Option (String → String → String) := none

/-- Keeps the declarations that match an included pattern, or any if none is given, and no excluded
one. -/
structure Selection where
  included : List String := []
  excluded : List String := []
  deriving DecidableEq, Repr, Inhabited

namespace Selection

def selects (s : Selection) (name : String) : Bool :=
  (s.included.isEmpty || s.included.any fun p => matchesPattern p name) &&
    !s.excluded.any fun p => matchesPattern p name

def hook (s : Selection) : Hook where
  name := "SelectDeclarationsHook"
  preGenerate := some fun model => model.filter s.selects

end Selection

structure Hooks where
  pre : List (SourceModel → SourceModel) := []
  post : List (String → String → String) := []

namespace Hooks

def addPre (hooks : Hooks) (hook : Hook) : Except Misuse Hooks :=
  match hook.preGenerate with
  | some f => .ok { hooks with pre := hooks.pre ++ [f] }
  | none => .error (.hookWithout hook.name "pre_generate")

def addPost (hooks : Hooks) (hook : Hook) : Except Misuse Hooks :=
  match hook.postGenerate with
  | some f => .ok { hooks with post := hooks.post ++ [f] }
  | none => .error (.hookWithout hook.name "post_generate")

/-- Hooks of both kinds, those before the compilation first. -/
def ofLists (pre post : List Hook) : Except Misuse Hooks := do
  let hooks ← pre.foldlM addPre {}
  post.foldlM addPost hooks

def runPre (hooks : Hooks) (model : SourceModel) : SourceModel :=
  hooks.pre.foldl (fun model f => f model) model

def runPost (hooks : Hooks) (file content : String) : String :=
  hooks.post.foldl (fun content f => f file content) content

end Hooks

/-- How a hook fails: with an error of the compilation, or with another one of a type of its own. -/
inductive HookFault where
  | compile (error : CompileError)
  | raised (typeName message : String)
  deriving Repr

/-- Hooks that may fail. The first failure ends the run. -/
structure HookRunner where
  pre : List (SourceModel → Except HookFault SourceModel) := []
  post : List (String → String → Except HookFault String) := []

namespace HookRunner

def runPre (runner : HookRunner) (model : SourceModel) : Except HookFault SourceModel :=
  runner.pre.foldlM (fun model f => f model) model

def runPost (runner : HookRunner) (file content : String) : Except HookFault String :=
  runner.post.foldlM (fun content f => f file content) content

end HookRunner

def Hooks.runner (hooks : Hooks) : HookRunner where
  pre := hooks.pre.map fun f model => .ok (f model)
  post := hooks.post.map fun f file content => .ok (f file content)

end SchemaCompiler

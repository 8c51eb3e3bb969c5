/-
The languages whose lines are understood, told by the extension of a file.
-/
import Usages.Name

namespace Usages

inductive Language where
  | typeScript
  | javaScript
  | vue
  | svelte
  | astro
  deriving Repr, DecidableEq

namespace Language

def name : Language → String
  | typeScript => "TypeScript"
  | javaScript => "JavaScript"
  | vue => "Vue"
  | svelte => "Svelte"
  | astro => "Astro"

/-- Extensions, in the case they are written in. -/
def ofExtension? (extension : String) : Option Language :=
  if ["ts", "tsx", "mts", "cts"].contains extension then some typeScript
  else if ["js", "jsx", "mjs", "cjs"].contains extension then some javaScript
  else if extension == "vue" then some vue
  else if extension == "svelte" then some svelte
  else if extension == "astro" then some astro
  else none

/-- The language of a file. -/
def ofPath? (path : OsPath) : Option Language :=
  path.extension?.bind ofExtension?

/-- The file is in a language that is understood. -/
def isSupported (path : OsPath) : Bool :=
  (ofPath? path).isSome

end Language

end Usages

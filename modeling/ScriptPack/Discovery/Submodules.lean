import ScriptPack.Failure
import ScriptPack.Json.Value
import ScriptPack.Python.Import

/-!
Submodules that packaging tools tend to miss: which modules are needed along with a module that a
script imports.
-/

namespace ScriptPack.Discovery

def qtModules (package : String) : List String :=
  [package ++ ".QtCore", package ++ ".QtGui", package ++ ".QtWidgets"]

/-- The modules needed along with a module, by its top-level name. -/
def knownSubmodules : List (String × List String) :=
  [("tkinter", ["tkinter.ttk", "tkinter.messagebox", "tkinter.filedialog"]),
   ("PyQt5", qtModules "PyQt5"),
   ("PyQt6", qtModules "PyQt6"),
   ("PySide2", qtModules "PySide2"),
   ("PySide6", qtModules "PySide6"),
   ("matplotlib", ["matplotlib.backends", "matplotlib.backends.backend_tkagg"]),
   ("numpy", ["numpy.core", "numpy.lib"]),
   ("pandas", ["pandas.io", "pandas.plotting"])]

/-- Names under which a table answers with something that is not a row. They cannot be looked up. -/
def reservedNames : List String :=
  ["constructor", "__defineGetter__", "__defineSetter__", "hasOwnProperty", "__lookupGetter__",
   "__lookupSetter__", "isPrototypeOf", "propertyIsEnumerable", "toString", "valueOf", "__proto__",
   "toLocaleString"]

/-- What is needed along with one top-level module. -/
def submodulesOf (extra : Fields (List String)) (top : String) : Except Failure (List String) :=
  if reservedNames.contains top then .error .wrongKind
  else .ok ((knownSubmodules.lookup top).getD [] ++ (extra.get? top).getD [])

/-- What is needed along with some modules, each name once. Rows of the extra table are added to
those that are known. -/
def expandSubmodules (names : List String) (extra : Fields (List String)) :
    Except Failure (List String) := do
  let tops := (names.map Python.topLevelName).eraseDups
  let added ← tops.mapM (submodulesOf extra)
  return added.flatten.eraseDups

end ScriptPack.Discovery

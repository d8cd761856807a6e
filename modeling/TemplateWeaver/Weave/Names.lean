/-!
Names that generated code takes from the run-time library, and names that it defines itself.
-/
namespace TemplateWeaver.Names

/-- The name under which generated code imports the run-time library. -/
def library : String := "autogenerated"

/-- The local variable that holds the root of a unit, from which elements are found. -/
def root : String := "_root"

/-- The member that is called once an element has been created. -/
def createdHook : String := "created_autogenerated"

/-- The member that is called when an element enters the page. -/
def mountedHook : String := "inserted_autogenerated"

/-- The member that is called when an element leaves the page. -/
def unmountedHook : String := "removed_autogenerated"

/-- The function that sets a page up. -/
def initFunction : String := "init_autogenerated"

/-- The function that takes a page down. -/
def disposeFunction : String := "dispose_autogenerated"

/-- A type of the run-time library. -/
def typeName (name : String) : String :=
  library ++ "." ++ name

/-- The type of all elements. -/
def elementType : String := typeName "Element"

def listenerType : String := typeName "EventListener"

/-- The type of what ends a watch. -/
def stopperType : String := typeName "WatcherDisposer"

/-- The statement that looks for changes of watched expressions. -/
def dispatch : String :=
  library ++ ".dispatch();"

end TemplateWeaver.Names

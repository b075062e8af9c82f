import DeclSync.Script.Literal
import DeclSync.Text.LineEnding

/-!
# Descriptions

A method is described by the summary of its comment; without one, by what is known of its name; and
else by a phrase made of its name and that of the interface. All three are in the form that stands
in a string literal.

## Main definitions

- `familiarMethods` — the methods that are described by their names
- `Text.commentSummary?` — the first line of prose of a documentation comment
- `Method.descriptionOf` — the description of a method
-/

namespace DeclSync

/-- How descriptions speak of the interface unless they are told otherwise. -/
def standardApiName : Text := "the API"

/-- Descriptions of common methods that are often left without a comment. -/
def familiarMethods : List (String × String) :=
  [("init", "Initialize the SypnexAPI instance"),
    ("getSetting", "Get an application setting value"),
    ("setSetting", "Set an application setting value"),
    ("getAllSettings", "Get all application settings"),
    ("deleteSetting", "Delete an application setting"),
    ("getVirtualFileStats", "Get virtual file system statistics"),
    ("listVirtualFiles", "List files in virtual file system"),
    ("readVirtualFile", "Read a file from virtual file system"),
    ("writeVirtualFile", "Write a file to virtual file system"),
    ("deleteVirtualItem", "Delete a file or folder from virtual file system"),
    ("connectSocket", "Connect to a WebSocket"),
    ("sendMessage", "Send a message through WebSocket"),
    ("isInitialized", "Check if the API is initialized"),
    ("getAppId", "Get the current application ID"),
    ("showNotification", "Show a notification to the user"),
    ("logInfo", "Log an info message"),
    ("logError", "Log an error message"),
    ("executeTerminalCommand", "Execute a terminal command"),
    ("readVirtualFileText", "Read a text file from virtual file system"),
    ("readVirtualFileJSON", "Read a JSON file from virtual file system"),
    ("writeVirtualFileJSON", "Write a JSON file to virtual file system"),
    ("createVirtualFolder", "Create a folder in virtual file system"),
    ("createVirtualFile", "Create a file in virtual file system"),
    ("getVirtualItemInfo", "Get information about a virtual file system item"),
    ("virtualItemExists", "Check if a virtual file system item exists")]

namespace Text

/-- A line of a comment without blanks around it and without the stars in front of it. -/
def undecorated (line : Text) : Text := trim (line.trim.dropWhile (· = .scalar '*'))

/-- Whether a line of a comment is prose: neither empty nor a tag line. -/
def isProse (line : Text) : Bool := !line.isEmpty && !line.beginsWith "@"

/-- The text without the mark at its end, if it ends with it. -/
def withoutEnd (t mark : Text) : Text :=
  if mark.isSuffixOf t then t.take (t.length - mark.length) else t

/-- The text between the marks of a documentation comment. -/
def commentBody (comment : Text) : Text :=
  let t := comment.trim
  ((after? "/**" t).getD t).withoutEnd "*/"

/-- The first line of prose of a documentation comment, in the form that stands in a string literal.
-/
def commentSummary? (comment : Text) : Option Text :=
  ((comment.commentBody.unifyLineEndings.lines.map undecorated).find? isProse).map literalBody

end Text

/-- What is known of the methods of a name. -/
def familiarDescription? (name : Text) : Option Text :=
  (familiarMethods.find? fun (known, _) => name = known).map fun (_, description) => description

/-- The description of a method: the documented one unless it is missing or empty, else what is
known of the name, else a phrase of the name and the interface. -/
def Method.descriptionOf (name : Text) (documented : Option Text) (apiName : Text) : Text :=
  match documented with
  | some (c :: t) => c :: t
  | _ =>
    match familiarDescription? name with
    | some description => description.literalBody
    | none => (name ++ " method from " ++ apiName : Text).literalBody

end DeclSync

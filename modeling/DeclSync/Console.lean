import DeclSync.Text.CodePoint

/-!
# Messages

What a run says. Progress is shown on the standard output to those who asked for it, reports are
shown there to everyone, and diagnostics go to the standard error output. A run produces the same
messages whether progress is shown or not, and showing them does not fail.

## Main definitions

- `Message` — something that is said, with its line break
- `Message.stdout`, `Message.stderr` — what is seen of it
- `Message.progress`, `Message.warning`, `Message.failure` — messages made of values
-/

namespace DeclSync

/-- A value that is put into a message. -/
inductive MessageValue where
  | text (t : Text)
  | integer (n : Int)
  | boolean (b : Bool)
  | nothing

/-- A value as text. -/
def MessageValue.toText : MessageValue → Text
  | text t => t
  | integer (.ofNat n) => Text.ofNat n
  | integer (.negSucc n) => "-" ++ Text.ofNat (n + 1)
  | boolean true => "True"
  | boolean false => "False"
  | nothing => "None"

/-- Something that a run says. -/
inductive Message where
  | progress (text : Text)
  | report (text : Text)
  | diagnostic (text : Text)
  deriving DecidableEq

namespace Message

/-- What is seen of a message on the standard output. -/
def stdout (verbose : Bool) : Message → Text
  | progress text => if verbose then text else []
  | report text => text
  | diagnostic _ => []

/-- What is seen of a message on the standard error output. -/
def stderr : Message → Text
  | diagnostic text => text
  | _ => []

/-- Values as text, with a separator between them. -/
def joined (separator : Text) (values : List MessageValue) : Text :=
  List.intercalate separator (values.map (·.toText))

/-- Progress made of values. -/
def progressOf (separator ending : Text) (values : List MessageValue) : Message :=
  progress (joined separator values ++ ending)

/-- A failure, which is a line of its own. -/
def failure (values : List MessageValue) : Message := diagnostic (joined " " values ++ "\n")

/-- A warning, which is a line of its own. -/
def warning (values : List MessageValue) : Message :=
  diagnostic ("Warning: " ++ joined " " values ++ "\n")

theorem stderr_warning (t : Text) : (warning [.text t]).stderr = "Warning: " ++ t ++ "\n" := by
  simp [warning, stderr, joined, MessageValue.toText]

end Message

end DeclSync

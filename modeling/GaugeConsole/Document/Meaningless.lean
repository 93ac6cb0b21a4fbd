import GaugeConsole.Document.Date
import GaugeConsole.Document.Malformed
import GaugeConsole.Text.Quoted

/-!
# Documents without a value

A text can keep all the rules for documents and still have no value, when a scalar is none of its
type: a truth value that is no such word, a number that cannot be read, a date that is not in the
calendar.
-/

namespace GaugeConsole.Document

inductive Meaningless where
  | word (text : String)
  /-- There is no text where a number should be. -/
  | empty
  | whole (base : Nat) (text : String)
  | tooLong (digits : Nat)
  | number (text : String)
  /-- A power of sixty is beyond every number with a point. -/
  | tooLarge
  | date (problem : DateProblem)
  /-- A text that should be a date is not written like one. -/
  | undated
  /-- A mapping should be a date. -/
  | datedMapping
deriving DecidableEq, Repr

namespace Meaningless

def message : Meaningless → String
  | word text => quoted text
  | empty => "string index out of range"
  | whole base text => "invalid literal for int() with base " ++ intText base ++ ": "
      ++ String.ofList ((quoted text).toList.take 200)
  | tooLong digits => "Exceeds the limit (4300 digits) for integer string conversion: value has "
      ++ intText digits ++ " digits; use sys.set_int_max_str_digits() to increase the limit"
  | number text => "could not convert string to float: " ++ quoted text
  | tooLarge => "int too large to convert to float"
  | date problem => problem.message
  | undated => "'NoneType' object has no attribute 'groupdict'"
  | datedMapping => "expected string or bytes-like object, got 'list'"

end Meaningless

inductive Fault where
  | malformed (cause : Malformed)
  | meaningless (cause : Meaningless)
deriving DecidableEq, Repr

namespace Fault

def message : Fault → String
  | malformed cause => cause.message
  | meaningless cause => cause.message

end Fault

end GaugeConsole.Document

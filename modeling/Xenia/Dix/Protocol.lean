import Mathlib.Data.Nat.Notation

/-!
# Status codes

The errors of the core protocol as the request handlers return them.
-/

namespace Xenia.Dix

abbrev Status := ℕ

def Success : Status := 0
def BadValue : Status := 2
def BadWindow : Status := 3
def BadAtom : Status := 5
def BadMatch : Status := 8
def BadDrawable : Status := 9
def BadAccess : Status := 10
def BadAlloc : Status := 11
def BadIDChoice : Status := 14
def BadLength : Status := 16
def BadImplementation : Status := 17

end Xenia.Dix

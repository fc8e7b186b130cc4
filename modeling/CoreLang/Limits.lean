/-! The fixed limits of the language. -/
namespace CoreLang.Limits

def identifierLength : Nat := 31

/-- The number of digits that follow each separator in a numeral. -/
def groupLength : Nat := 3

/-- The most levels of nesting that may be open at one time. -/
def nesting : Nat := 128

end CoreLang.Limits

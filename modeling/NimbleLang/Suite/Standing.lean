import NimbleLang.Suite.Samples

/-!
The standing samples of the suite: programs and expressions of Nimble with what is expected of their analysis.
-/

namespace NimbleLang

namespace Samples

/-- A program of several lines. -/
def lines (ls : List String) : String := Text.joinWith "\n" ls

def validExpressionsTable : List (Judged SymbolType) := [
  ⟨"37", .value .int⟩,
  ⟨"-37", .value .int⟩,
  ⟨"\"hello\"", .value .string⟩,
  ⟨"\"Hello\\nWorld\"", .value .string⟩,
  ⟨"\"Hello\\rWorld\"", .value .string⟩,
  ⟨"\"Hello\\aWorld\"", .value .string⟩,
  ⟨"\"Hello\\bWorld\"", .value .string⟩,
  ⟨"\"Hello\\fWorld\"", .value .string⟩,
  ⟨"\"Hello\\tWorld\"", .value .string⟩,
  ⟨"\"Hello\\vWorld\"", .value .string⟩,
  ⟨"\"Hello\\\\World\"", .value .string⟩,
  ⟨"\"Hello\\'World\"", .value .string⟩,
  ⟨"\"Hello\\?World\"", .value .string⟩,
  ⟨"\"Hello            World\"", .value .string⟩,
  ⟨"\"HELLO WORLD\"", .value .string⟩,
  ⟨"true", .value .bool⟩,
  ⟨"false", .value .bool⟩,
  ⟨"(\"Hello World\")", .value .string⟩,
  ⟨"(true)", .value .bool⟩,
  ⟨"(false)", .value .bool⟩,
  ⟨"(32*45)*(30/2)", .value .int⟩,
  ⟨"(45+10)", .value .int⟩,
  ⟨"12*62", .value .int⟩,
  ⟨"1*33*(-23)", .value .int⟩,
  ⟨"17*4/(12*-1)", .value .int⟩,
  ⟨"23+49", .value .int⟩,
  ⟨"(16-0)+(-3)", .value .int⟩,
  ⟨"!true", .value .bool⟩,
  ⟨"!!(!false)", .value .bool⟩,
  ⟨"--(-3)", .value .int⟩,
  ⟨"(-23)<=48", .value .bool⟩,
  ⟨"1==1", .value .bool⟩,
  ⟨"(20+38)*56<92", .value .bool⟩]

def invalidExpressionsTable : List (Judged Category) := [
  ⟨"!37", .invalidNegation⟩,
  ⟨"!!37", .invalidNegation⟩,
  ⟨"(\"string\"*12)", .invalidBinaryOp⟩,
  ⟨"(!30)", .invalidBinaryOp⟩,
  ⟨"(33+true)", .invalidBinaryOp⟩,
  ⟨"!!82*12", .invalidBinaryOp⟩,
  ⟨"\"string\"*12", .invalidBinaryOp⟩,
  ⟨"a/b", .invalidBinaryOp⟩,
  ⟨"\"someString\"+\"nope\"", .invalidBinaryOp⟩,
  ⟨"true+99", .invalidBinaryOp⟩,
  ⟨"!!!20", .invalidNegation⟩,
  ⟨"!\"Im a string\"", .invalidNegation⟩,
  ⟨"-false", .invalidNegation⟩,
  ⟨"-\"some string eh\"", .invalidNegation⟩,
  ⟨"false==true", .invalidBinaryOp⟩,
  ⟨"(\"Cant believe youve done this.\")<(30+2)", .invalidBinaryOp⟩]

def validDeclarationsTable : List (About SymbolType) := [
  ⟨"var myBool : Bool", "myBool", .value .bool⟩,
  ⟨"var myInt : Int", "myInt", .value .int⟩,
  ⟨"var myString : String", "myString", .value .string⟩,
  ⟨"var myBool : Bool = !true", "myBool", .value .bool⟩,
  ⟨"var myInt : Int = -100", "myInt", .value .int⟩,
  ⟨"var myString : String = \"SomeString\"", "myString", .value .string⟩,
  ⟨"var myInt : Int = 100 / 12", "myInt", .value .int⟩,
  ⟨"var myVar : Int = ((100 + 13) * 5)", "myVar", .value .int⟩]

def invalidDeclarationsTable : List (About Category) := [
  ⟨"var myBool : Bool = 100", "myBool", .assignToWrongType⟩,
  ⟨"var veryWrong : Int = \"absolutely!\"", "veryWrong", .assignToWrongType⟩,
  ⟨"var nooope : String = false", "nooope", .assignToWrongType⟩,
  ⟨"var duplicateThis : Bool = true\nvar duplicateThis : Int = 30", "duplicateThis", .duplicateName⟩]

def validVariablesTable : List (About SymbolType) := [
  ⟨"var x : Int\nprint x", "x", .value .int⟩,
  ⟨"var myBool : Bool = true\nvar y : String\nprint myBool\nprint y", "myBool", .value .bool⟩,
  ⟨"var myBool : Bool = true\nvar y : String\nprint myBool\nprint y", "y", .value .string⟩,
  ⟨"var someVar : Bool = (30 == 40)\nprint someVar", "someVar", .value .bool⟩,
  ⟨"var anExpre : Bool = (12 < 10)\nif (anExpre) \x7b \x7d", "anExpre", .value .bool⟩]

def invalidVariablesTable : List String := [
  "var varA : String = \"varA String\"\nprint varB",
  "var anInt : String = 100 / \"String\"\nprint anInt",
  "var newVar : String = \"WasCompEngWorthIt?\"\nprint newVar\nprint x",
  "var anExpre : Bool = (12 < false)\nif (anExpre) \x7b \x7d"]

def validPrintsTable : List String := [
  "print \"ChocolateRain\"",
  "print (1 + 3) * 12",
  "print !(12 < -20)",
  "var testVar : Int print testVar"]

def invalidPrintsTable : List (Judged (List Category)) := [
  ⟨"print \"\" == -false", [.invalidBinaryOp, .invalidNegation, .unprintableExpression]⟩,
  ⟨"print (1 + 3) * \"Im an integer\"", [.invalidBinaryOp, .unprintableExpression]⟩,
  ⟨"print (12 < !20)", [.invalidBinaryOp, .invalidBinaryOp, .invalidNegation, .unprintableExpression]⟩]

def validAssignmentsTable : List (About SymbolType) := [
  ⟨"var myInt : Int\nmyInt = -100", "myInt", .value .int⟩,
  ⟨"var myString : String\nmyString = \"SomeString\"", "myString", .value .string⟩,
  ⟨"var myInt : Int\nmyInt = 100 / 12", "myInt", .value .int⟩,
  ⟨"var myBool : Bool\nmyBool = !true", "myBool", .value .bool⟩,
  ⟨"var myInt : Int\nvar myGuy : String\nmyInt = (10 - 20)", "myInt", .value .int⟩,
  ⟨"var setThrice : Int = 30\nsetThrice = 31\nsetThrice = 32", "setThrice", .value .int⟩]

def invalidAssignmentsTable : List (Judged Category) := [
  ⟨"myInt = 12", .undefinedName⟩,
  ⟨"var myString : String\nmyString = true", .assignToWrongType⟩,
  ⟨"var myInt : Int\nvar myGuy : String\nmyPerson = (10 - 20)", .undefinedName⟩,
  ⟨"var myVar : Int\nvar myVar : Bool\nmyVar = !true", .duplicateName⟩,
  ⟨"var x : Bool = true\n var y : Int = 10\n print x * y", .unprintableExpression⟩]

def validLoopsTable : List String := [
  "while true \x7b \x7d",
  "while 10 == 10 \x7b print 10 + 10 \x7d",
  "while false \x7b while 10 < 5 \x7b print \"string\" \x7d \x7d"]

def invalidLoopsTable : List String := [
  "while 10 + 10 \x7b\x7d",
  "while !10 == 5 \x7b\x7d",
  "while \"string\" \x7b\x7d",
  "while \"str\" + 10 \x7b myInt = 12 \x7d"]

def validBranchesTable : List String := [
  "var X : Bool = false\nif X \x7b\x7d else \x7b\x7d",
  "if !(90 < 100) \x7b\x7d",
  "if (true) \x7b if (123 < 23) \x7b \x7d else \x7b \x7d \x7d"]

def invalidBranchesTable : List String := [
  "var X : Int = 30\nif X - 30 \x7b\x7d else \x7b\x7d",
  "if !\"Totally a bool\" \x7b\x7d",
  "if (true) \x7b if (123) \x7b \x7d \x7d"]

def functionTypesTable : List (Judged (List (String × SymbolType))) := [
  ⟨"func myFunc(var1 : Int, var2 : String) -> Bool \x7breturn true\x7d\nfunc secondFunc() -> Int \x7breturn 10\x7d\nfunc voidFunc() \x7b\x7d", [("myFunc", .function [.int, .string] .bool), ("secondFunc", .function [] .int), ("voidFunc", .function [] .void)]⟩]

def parameterTypesTable : List (Judged (List (String × List (String × SymbolType)))) := [
  ⟨"func myFunc(var1 : Int, var2 : String) -> Bool \x7b\x7d\nfunc secondFunc(var3 : Bool) -> Int \x7b\x7d", [("myFunc", [("var1", .value .int), ("var2", .value .string)]), ("secondFunc", [("var3", .value .bool)])]⟩]

def invalidParametersTable : List (Judged Category) := [
  ⟨"func thisFunc(thisVar  : Int) \x7b var thisVar : Bool\nthisVar = false \x7d", .duplicateName⟩]

def validCallsTable : List String := [
  "func myFunc(var1: Int, var2 : String) \x7b\x7d\nmyFunc(10, \"balls\")",
  "func myFunc(var1: Int, var2 : Int) \x7bif var1 < var2 \x7bprint var1\x7d else \x7bprint var2\x7d\x7d\nmyFunc(10,12)",
  "func myFunc(var1: Int, var2 : String) \x7b\x7d\nmyFunc(10, \"balls and books\")",
  "func emptyFunc() \x7b\x7d\nemptyFunc()",
  "func calledFunc() \x7b\x7d\nfunc callingFunc() \x7bcalledFunc()\x7d\ncallingFunc()",
  "func myFunc() \x7b\x7d\nvar myFunc : Int",
  "func myFunc() \x7b\x7d\nfunc parmFunc(myFunc : String) \x7b\x7d"]

def invalidCallsTable : List String := [
  "func myFunc(var1: Int, var2 : Bool) \x7b\x7d\nmyFunc(\"cat\", \"and mouse\")",
  "func myFunc(var1: Int, var2 : Bool) \x7b\x7d\nNOTmyFunc(\"cat\", \"and mouse\")",
  "func myFunc(var1: Int, var2 : Bool) \x7b\x7d\nMissingArgFunc(\"cat\")"]

def validReturnsTable : List String := [
  "return",
  "var test : Int = 30\nreturn",
  "func myFunc() -> Bool \x7breturn true\x7d",
  "func myFunc() -> Int \x7breturn 53\x7d",
  "func myFunc() -> String \x7breturn \"hello world\"\x7d",
  "func myFunc() \x7breturn\x7d"]

def invalidReturnsTable : List String := [
  "return 10",
  "var X : Int = 30\nreturn X",
  "func myFunc() -> Bool \x7breturn\x7d",
  "func myFunc() -> Bool \x7breturn 10\x7d",
  "func myFunc() -> Int \x7breturn \"Hello\"\x7d",
  "func myFunc() -> String \x7breturn true\x7d"]

def callTypesTable : List (About SymbolType) := [
  ⟨"func myFunc() -> Bool \x7breturn true\x7d\n var x : Bool = myFunc()", "myFunc()", .value .bool⟩,
  ⟨"func myFunc() -> Int \x7breturn 10\x7d\nvar test : Int = myFunc()", "myFunc()", .value .int⟩,
  ⟨"func myFunc() -> String \x7breturn \"Hello World\"\x7d\nvar test : String = myFunc()", "myFunc()", .value .string⟩,
  ⟨"func myFunc() -> Int \x7breturn 10\x7d\nvar test : Int = 10 + myFunc()", "myFunc()", .value .int⟩,
  ⟨"func myFunc(num : Int) -> Int \x7breturn 10 + num\x7d\nvar test : Int = myFunc(10)", "myFunc(10)", .value .int⟩,
  ⟨"func myFunc(num : Int) -> String \x7breturn \"Hello\"\x7d\nvar test : String = myFunc(10)", "myFunc(10)", .value .string⟩,
  ⟨"func myFunc() \x7bvar x : Int = 10\x7d\nvar x : Int = 20 myFunc()", "myFunc()", .value .void⟩]

def invalidCallExpressionsTable : List (Judged Category) := [
  ⟨"func myFunc() -> Bool \x7breturn true\x7d\nvar x : String = myFunc()", .assignToWrongType⟩,
  ⟨"func myFunc() -> String \x7breturn \"Hello\"\x7d\nvar x : Int = myFunc() + 10", .invalidBinaryOp⟩,
  ⟨"func myFunc(num : Int) \x7b\x7d\nvar x : Int = myFunc(10)", .invalidCall⟩,
  ⟨"func myFunc(num : Int) -> Bool \x7breturn true\x7d\nvar x : Int = myFunc()", .assignToWrongType⟩,
  ⟨"var x : Int = myFunc()", .invalidCall⟩,
  ⟨"func myFunc() \x7bvar x : Int = 10\x7d\nvar y : Int = x + 3 myFunc()", .undefinedName⟩,
  ⟨"func myFunc() \x7breturn\x7d\nvar x : Int = myFunc()", .invalidCall⟩,
  ⟨"func myFunc(x : Int, num : Int) \x7breturn\x7d\nvar y : Int = myFunc(10)", .invalidCall⟩,
  ⟨"func myFunc(x : Int) \x7breturn\x7d\nvar y : Int = myFunc", .functionUsedAsVariable⟩]

def unreachableTable : List String := [
  lines [
      "",
      "    func myFunc() -> String \x7b",
      "        var x : String = \"String\"",
      "        var y : Int",
      "        var m : Int",
      "        var theAnswer : Int = 42",
      "        x = \"String 2\"",
      "        return \"The returned string of power!\"",
      "        y = 10",
      "        x = \"No\"",
      "        y = y + 2",
      "        if true \x7b",
      "            print x",
      "            print (y + 10)",
      "        \x7d",
      "        else \x7b",
      "            return \"Please return this.\"",
      "            print \"Sorry, I can't :/.\"",
      "            while true \x7b",
      "                m = 90",
      "                print m",
      "                if (theAnswer == 42) \x7b",
      "                    print (\"The answer to the universe.\")",
      "                \x7d",
      "            \x7d",
      "",
      "        \x7d",
      "",
      "    \x7d",
      "    "],
  lines [
      "",
      "    func firstFunc() \x7b",
      "        ",
      "        if 2 == 3 \x7b",
      "            return ",
      "        \x7d",
      "        ",
      "        print \"Believe it or not, this is reachable.\"",
      "        return",
      "        print \"Not this one though.\"",
      "    \x7d",
      "    ",
      "    func secondFunc() -> Int \x7b",
      "        ",
      "        print \"Here's two levels of totally blocked if statements!\"",
      "        if 30 == 10 \x7b",
      "            print \"Is reachable\"",
      "            if true \x7b",
      "                print \"This one's reachable.\"",
      "                return 3",
      "            \x7d",
      "            else \x7b",
      "                return 2",
      "            \x7d",
      "            print \"Not reachable\"",
      "        \x7d",
      "        else \x7b",
      "            return 10",
      "            print \"Neither is this\"",
      "        \x7d",
      "        ",
      "        if 0 < 1 \x7b",
      "            print \"This one is reachable!!??? Nope.\"",
      "        \x7d",
      "        ",
      "        while true \x7b",
      "            print \"lol this print is unreachable because of the totally blocked if statement above.\"",
      "        \x7d",
      "        return 0",
      "        ",
      "    \x7d",
      "    ",
      "    return ",
      "    print \"First line in main won't be reached.\"",
      "    print \"Neither will this.\" ",
      "    ",
      "    "],
  lines [
      "",
      "    if 30 == 10 \x7b",
      "        print \"Is reachable\"",
      "        return",
      "        while true \x7b",
      "            print \"Not reachable\"",
      "        \x7d",
      "    \x7d else \x7b",
      "        print \"No return here\"",
      "    \x7d",
      "    print \"I should be reachable\"",
      "",
      "    "],
  lines [
      " ",
      "    while true \x7b",
      "        return ",
      "        print \"Not reachable\"",
      "    \x7d",
      "    print \"Still reachable.\"",
      "    "]]

def missingReturnsTable : List String := [
  " \n    func myFunc() -> Int \x7b\n    \x7d\n    ",
  lines [
      "",
      "    func myFunc() -> Int \x7b",
      "        if true \x7b",
      "            print 10",
      "        \x7d",
      "        else \x7b",
      "            return 10",
      "            print 3",
      "        \x7d",
      "",
      "    \x7d",
      "    "],
  lines [
      "",
      "    func myFunc() -> Bool \x7b",
      "        if true \x7b",
      "            if false \x7b",
      "                return false",
      "            \x7d",
      "            else \x7b",
      "                print \"not a return!\"",
      "            \x7d",
      "        \x7d",
      "        else \x7b",
      "            return true   ",
      "        \x7d",
      "    \x7d",
      "    "]]

def completeReturnsTable : List String := [
  "\n    func myFunc() \x7b\n    \x7d    \n    ",
  lines [
      "",
      "    func myFunc() -> Int \x7b",
      "        return 10",
      "    \x7d  ",
      "    "],
  lines [
      "",
      "    func myFunc() -> Int \x7b",
      "        if true \x7b",
      "            return 10",
      "        \x7d",
      "        else \x7b",
      "            return 10",
      "        \x7d",
      "    \x7d",
      "    "],
  lines [
      " ",
      "    func myFunc() -> Int \x7b",
      "    ",
      "        if true \x7b",
      "            return 12",
      "        \x7d",
      "        else \x7b",
      "        \x7d",
      "        return 19",
      "    \x7d",
      "    "]]

def standing : Samples where
  validExpressions := validExpressionsTable
  invalidExpressions := invalidExpressionsTable
  validDeclarations := validDeclarationsTable
  invalidDeclarations := invalidDeclarationsTable
  validVariables := validVariablesTable
  invalidVariables := invalidVariablesTable
  validPrints := validPrintsTable
  invalidPrints := invalidPrintsTable
  validAssignments := validAssignmentsTable
  invalidAssignments := invalidAssignmentsTable
  validLoops := validLoopsTable
  invalidLoops := invalidLoopsTable
  validBranches := validBranchesTable
  invalidBranches := invalidBranchesTable
  functionTypes := functionTypesTable
  parameterTypes := parameterTypesTable
  invalidParameters := invalidParametersTable
  validCalls := validCallsTable
  invalidCalls := invalidCallsTable
  validReturns := validReturnsTable
  invalidReturns := invalidReturnsTable
  callTypes := callTypesTable
  invalidCallExpressions := invalidCallExpressionsTable
  unreachable := unreachableTable
  missingReturns := missingReturnsTable
  completeReturns := completeReturnsTable

end Samples

end NimbleLang

/-!
# Help

The text of the `HELP` command.
-/

namespace LineBasic.Help

def version : String := "1.0.0"

def lines : List String :=
  ["Minimal BASIC interpreter " ++ version,
   "",
   "Program lines:",
   "    <line> <statement>    add or replace a line",
   "    <line>                delete a line",
   "",
   "Statements (in a program, or LET/PRINT/INPUT typed directly):",
   "    REM <text>            comment",
   "    LET <var> = <exp>     assignment",
   "    PRINT <exp>           print the value of an expression",
   "    INPUT <var>           read an integer into a variable",
   "    END                   stop the program",
   "    GOTO <line>           continue at a line",
   "    IF <exp> <cmp> <exp> THEN <line>",
   "                          jump if the comparison (<, > or =) holds",
   "",
   "Commands:",
   "    RUN                   run the program",
   "    LIST                  list the program",
   "    CLEAR                 delete the program and all variables",
   "    QUIT                  leave the interpreter",
   "    HELP                  print this text",
   "",
   "Expressions use integers, variables, + - * / and parentheses."]

def text : String :=
  String.join (lines.map (· ++ "\n"))

end LineBasic.Help

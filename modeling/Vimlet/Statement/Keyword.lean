import Vimlet.Fault

/-!
# Keywords

The words that open, divide and close blocks, and the abbreviations of keywords.
-/

namespace Vimlet

/-- The keyword that an abbreviation stands for. -/
def expandKeyword : String → String
  | "fu" | "fun" | "func" => "function"
  | "endf" | "endfun" | "endfunc" => "endfunction"
  | "wh" => "while"
  | "endw" | "endwh" => "endwhile"
  | "endfo" => "endfor"
  | "el" => "else"
  | "elsei" => "elseif"
  | "en" | "endi" => "endif"
  | "exe" | "exec" => "execute"
  | "sil" => "silent"
  | "unsil" => "unsilent"
  | "fini" => "finish"
  | "retu" => "return"
  | "brea" => "break"
  | "con" => "continue"
  | word => word

/-- The part that a command word plays in the structure of a script. -/
inductive Role where
  | opens (block : Block)
  | branch
  | closes (block : Block)
  | simple
deriving DecidableEq, Repr

/-- The role of a keyword. -/
def Role.ofKeyword : String → Role
  | "if" => .opens .conditional
  | "while" => .opens .whileLoop
  | "for" => .opens .forLoop
  | "function" => .opens .function
  | "elseif" | "else" => .branch
  | "endif" => .closes .conditional
  | "endwhile" => .closes .whileLoop
  | "endfor" => .closes .forLoop
  | "endfunction" => .closes .function
  | _ => .simple

end Vimlet

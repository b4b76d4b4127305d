import Codemod.Path
import Codemod.RuleGroup

/-!
# The report of a run

What is printed about the files of a run. Notices and totals are plain text;
only the notice of a dry run and the log are coloured, if colours are on.
-/

namespace Codemod.Report

def painted (color : Bool) (code : Nat) (text : String) : String :=
  if color then "\x1b[" ++ toString code ++ "m" ++ text ++ "\x1b[0m" else text

def yellow (color : Bool) (text : String) : String := painted color 33 text

def dimmed (color : Bool) (text : String) : String := painted color 2 text

def header (count : Nat) : String := "Processing " ++ toString count ++ " files...\n\n"

def dryRunNotice (color : Bool) : String :=
  yellow color "[DRY-RUN] Files that would be rewritten (nothing is written):" ++ "\n"

def fixNotice (category : Category) (path : Path) : String :=
  category.tag ++ " Fixed: " ++ path.display ++ "\n"

def bannerWidth : Nat := 60

def banner : String := String.ofList (List.replicate bannerWidth '=') ++ "\n"

def summary (enumFiles typeFiles : Nat) : String :=
  "\n" ++ banner ++ "Total files with enum fixes: " ++ toString enumFiles ++
    "\nTotal files with type fixes: " ++ toString typeFiles ++ "\n" ++ banner

def hitLog (color : Bool) (category : Category) (path : Path) (revision : Revision) : String :=
  let mark := dimmed color "[VERBOSE]"
  mark ++ " " ++ category.tag ++ " " ++ toString revision.editCount ++ " edit(s) in " ++
      path.display ++ "\n" ++
    String.join (revision.hits.map fun hit =>
      mark ++ "   " ++ hit.rule ++ " x" ++ toString hit.edits ++ "\n")

end Codemod.Report

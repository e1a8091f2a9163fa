import ChunkBuild.Graph
/-!
# Reports

The lines that the command line prints: messages with a sign in front, tables and titled sections.
Every function gives the text it prints, line ends included.
-/
namespace ChunkBuild.Report

open ChunkBuild.Text ChunkBuild.Json

def info (message : String) : String := "ℹ️  " ++ message ++ "\n"

def success (message : String) : String := "✅ " ++ message ++ "\n"

def warning (message : String) : String := "⚠️  " ++ message ++ "\n"

def error (message : String) : String := "❌ " ++ message ++ "\n"

def detail (verbose : Bool) (message : String) : String :=
  if verbose then "🔍 " ++ message ++ "\n" else ""

/-- A row of cells. Columns beyond the given widths are left out; without widths all cells are
printed as they are. -/
def row (cells : List String) (widths : List Int) : String :=
  join " | "
    (if widths.isEmpty then cells else cells.zipWith (fun c w => padEnd w.toNat c) widths)

def tableHeader (headers : List String) (widths : List Int) : String :=
  let r := row headers widths
  r ++ "\n" ++ String.ofList (List.replicate (size r.toList) '-') ++ "\n"

def tableRow (cells : List String) (widths : List Int) : String := row cells widths ++ "\n"

def titled (title content : String) : String :=
  let underline := String.ofList (List.replicate (size title.toList) '=')
  "\n" ++ title ++ "\n" ++ underline ++ "\n" ++ content ++ "\n"

def graphRow (n : Node) : List String :=
  [n.name, natText n.fileCount,
    if n.dependencies.isEmpty then "-"
    else
      let deps := join ", " n.dependencyNames
      if deps.isEmpty then "-" else deps]

def columnWidths (headers : List String) (rows : List (List String)) : List Int :=
  headers.mapIdx fun i h =>
    ((rows.map fun r => size ((r[i]?).getD "").toList).foldl max (size h.toList) : Nat)

def graphTable (g : Graph) : String :=
  let headers := ["Chunk", "Files", "Depends on"]
  let rows := g.nodes.map graphRow
  let widths := columnWidths headers rows
  tableHeader headers widths ++ String.join (rows.map fun r => tableRow r widths)

end ChunkBuild.Report

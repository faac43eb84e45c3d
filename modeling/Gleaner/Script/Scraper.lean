import Gleaner.Script.Jumps

namespace Gleaner

open Validation

-- Binds the name used in data keys to a table.
structure DataSource where
  name : String
  table : String
deriving DecidableEq, Repr

def DataSource.check (v : Value) : Checked DataSource :=
  model "DataSource" v fun fields _ =>
    DataSource.mk <$> required fields "sourceAlias" checkSourceName
      <*> required fields "tableName" filledText

def DataSource.document (s : DataSource) : Document :=
  .record [("sourceAlias", .text s.name), ("tableName", .text s.table)]

-- A named script and the data sources it may touch.
structure Scraper where
  name : String
  instructions : List Instruction
  dataSources : List DataSource
deriving Repr

namespace Scraper

def unresolvedMessage (names : List String) : String :=
  "Jump instructions reference unknown markers: " ++ Value.joined ", " names

def resolved (s : Scraper) : Checked Scraper :=
  match Instruction.unresolvedJumps s.instructions with
  | [] => .valid s
  | names => .fault (.refused (unresolvedMessage names))

def checkFields (fields : List (String × Value)) : Checked Scraper :=
  Scraper.mk <$> required fields "name" filledText
    <*> required fields "instructions" (nonEmpty ∘ Instruction.checkAll)
    <*> optional fields "dataSources" [] (items DataSource.check)

-- A scraper as it is handed in: every jump has to reach a marker.
def check (v : Value) : Checked Scraper :=
  model "ScraperUpsertRequest" v fun fields _ => (checkFields fields).andThen resolved

def fieldDocuments (s : Scraper) : List (String × Document) :=
  [("name", .text s.name), ("instructions", .list (Instruction.documents s.instructions)),
    ("dataSources", .list (s.dataSources.map DataSource.document))]

def document (s : Scraper) : Document := .record s.fieldDocuments

end Scraper

-- A scraper with the number it is stored under.
structure StoredScraper extends Scraper where
  id : Int
deriving Repr

namespace StoredScraper

def check (v : Value) : Checked StoredScraper :=
  model "ScraperResponse" v fun fields _ =>
    (StoredScraper.mk <$> Scraper.checkFields fields <*> required fields "id" integer).andThen
      fun s => match Instruction.unresolvedJumps s.instructions with
        | [] => .valid s
        | names => .fault (.refused (Scraper.unresolvedMessage names))

def document (s : StoredScraper) : Document :=
  .record (s.toScraper.fieldDocuments ++ [("id", .int s.id)])

end StoredScraper

end Gleaner

import ArchiveLabels.Crawl.Crawler

/-!
# Problems that are found later

A check of all records finds problems when the items of a crawl are made already. Each goes to the
item of its source : of several, to the last one. A source without an item gets a new one at the
end.
-/

namespace ArchiveLabels.CrawlItem

/-- Adds a problem to the last item of its source, if there is one. -/
def attachLast? (p : Problem) : List CrawlItem → Option (List CrawlItem)
  | [] => none
  | i :: is =>
    match attachLast? p is with
    | some is => some (i :: is)
    | none =>
      if i.source = p.source then some ({ i with problems := i.problems ++ [p] } :: is) else none

/-- Adds a problem to the item of its source. -/
def attachOne (is : List CrawlItem) (p : Problem) : List CrawlItem :=
  (attachLast? p is).getD (is ++ [⟨p.source, [p]⟩])

/-- Adds problems to the items of their sources. -/
def attach (is : List CrawlItem) (ps : List Problem) : List CrawlItem :=
  ps.foldl attachOne is

end ArchiveLabels.CrawlItem

